import Metagen.Emission.Action
import Metagen.Eval.Arguments
import Metagen.Value.Environment
import Metagen.Value.Render

/-! The state of a running script, and what every step of it is built from: frames, which tell what
is running, the open scopes, and the counters of calls and loops. What is entered before a body is
left after it, however the body ends. -/

namespace Metagen.Eval

open Emission

/-- Why a script stops before its end. -/
inductive Stop where
  | failed (error : EvalError)
  /-- The bound on the length of the run was reached. -/
  | outOfFuel
  deriving DecidableEq, Repr

structure Machine where
  store : Store := {}
  emitter : Emitter := {}
  /-- What is running, the innermost first. -/
  frames : List Frame := []
  /-- The number of the script whose code is running. -/
  unit : Nat := 0
  /-- The scopes that are open in the running code. -/
  env : Env := { namespaceCell := 0 }
  /-- Number of calls in progress. -/
  calls : Nat := 0
  /-- Number of loops around the running statement within its call. -/
  loops : Nat := 0

instance : HoldsEmitter Machine where
  emitter m := m.emitter
  setEmitter m e := { m with emitter := e }
  emitter_setEmitter _ _ := rfl
  setEmitter_setEmitter _ _ _ := rfl

/-- Steps of a script. -/
abbrev EvalM := Action Stop Machine

variable {α : Type}

def fail (fault : Fault) : EvalM α := throw (.failed { fault })

/-- A refused request for generated text fails the script. -/
def Stop.ofRefusal (error : EmissionError) : Stop := .failed { fault := .emission error }

def readStore (f : Store → α) : EvalM α := fun m => .ok (f m.store) m

/-- Change the store from the scopes that are open. -/
def changeStore (f : Env → Store → Store) : EvalM Unit := fun m =>
  .ok () { m with store := f m.env m.store }

/-- Run an action of the store. The machine gives its store away for that time, so that the action
holds the only reference to it. -/
def onStore (action : EStateM Fault Store α) : EvalM α := fun m =>
  let s := m.store
  let m := { m with store := {} }
  match action s with
  | .ok a s => .ok a { m with store := s }
  | .error fault s => .error (.failed { fault }) { m with store := s }

def makeCell (f : Store → α × Store) : EvalM α := onStore fun s =>
  let (made, s) := f s
  .ok made s

def renderValue (v : Value) : EvalM String := readStore (v.render ·)

def isTrue (v : Value) : EvalM Bool := readStore (v.truthy ·)

def cTextOf (v : Value) : EvalM String := fun m =>
  match v.cText m.store with
  | .ok text => .ok text m
  | .error type => fail (.noCText type) m

def define (name : String) (v : Value) : EvalM Unit := changeStore (·.define · name v)

/-- Run something, and then leave what was entered for it. -/
def leaving (leave : Machine → Machine) (body : EvalM α) : EvalM α := fun m =>
  match body m with
  | .ok a m => .ok a (leave m)
  | .error stop m => .error stop (leave m)

/-- Open a scope inside those that are open. -/
def pushScope : EvalM Unit := do
  let env ← makeCell (← get).env.push
  modify ({ · with env })

/-- Run something in a scope of its own. -/
def inNewScope (body : EvalM α) : EvalM α := do
  pushScope
  leaving (fun m => { m with env := m.env.pop }) body

/-- Run something in other scopes. Those that were open are no part of them, and stay as they are
until it has ended. -/
def inScopes (env : Env) (body : EvalM α) : EvalM α := fun m =>
  leaving ({ · with env := m.env }) body { m with env }

/-- A failure without a trace gets the frames as they are; one that has a trace keeps it. -/
def Stop.traced (frames : List Frame) : Stop → Stop
  | .failed error => .failed (if error.trace.isEmpty then { error with trace := frames } else error)
  | .outOfFuel => .outOfFuel

/-- Run something inside a frame. A failure that leaves its innermost frame is traced there. -/
def withFrame (frame : Frame) (body : EvalM α) : EvalM α := fun m =>
  match body { m with frames := frame :: m.frames } with
  | .ok a m => .ok a { m with frames := m.frames.tail }
  | .error stop m => .error (stop.traced m.frames) { m with frames := m.frames.tail }

/-- Run something that is no script inside a frame with its label. -/
def withNative (label : String) (body : EvalM α) : EvalM α :=
  withFrame { site := .native, line := 0, label := some label } body

/-- The frame at another line; what is no script has no line. -/
def Frame.atLine (f : Frame) (line : Nat) : Frame :=
  match f.site with
  | .unit _ => { f with line }
  | .native => f

/-- The innermost frame has come to the line where a range starts. -/
def mark (span : Span) : EvalM Unit := modify fun m =>
  match m.frames with
  | f :: rest => { m with frames := f.atLine span.start.line :: rest }
  | [] => m

def withLoop (body : EvalM α) : EvalM α := fun m =>
  leaving (fun m => { m with loops := m.loops - 1 }) body { m with loops := m.loops + 1 }

/-- Run the body of a call of a function that was written in script `unit`. Loops around the call do
not reach into it. -/
def withCall (unit : Nat) (body : EvalM α) : EvalM α := fun caller =>
  leaving (fun m => { m with unit := caller.unit, calls := m.calls - 1, loops := caller.loops })
    body { caller with unit, calls := caller.calls + 1, loops := 0 }

end Metagen.Eval
