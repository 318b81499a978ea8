import Metagen.Eval.Methods
import Metagen.Eval.Level

/-! Calls of functions. Parameters are bound in a scope inside the scopes that the function was
written in, before its frame is entered. -/

namespace Metagen.Eval

open Script

/-- What the body of a function returns: the value of a return statement, or of an expression that
stands last. -/
def runBody (ev : Level) (stmts : List Stmt) : EvalM Value := do
  let (first, last) := match stmts.getLast? with
    | some (.expr e) => (stmts.dropLast, some e)
    | _ => (stmts, none)
  match ← ev.stmts first with
  | .result v => return v
  | _ =>
    match last with
    | some e =>
      mark e.span
      ev.expr e
    | none => return .nil

/-- Bind parameters one by one; left-over arguments are refused after the last. -/
def bindParams (label : String) : List Ident → Args → EvalM Unit
  | [], args =>
    match args.leftOver? with
    | some fault => fail fault
    | none => pure ()
  | param :: rest, args =>
    match args.take param.name with
    | some (v, args) => do
      define param.name v
      bindParams label rest args
    | none => fail (.missingArgument label param.name)

def callClosure (ev : Level) (closure : Closure) (args : Args) : EvalM Value := do
  if maxCallDepth ≤ (← get).calls then fail .callDepth
  let f := closure.function
  let frame : Frame :=
    { site := .unit closure.unit, line := f.span.start.line, label := some f.label }
  inScopes closure.env do
    pushScope
    bindParams f.label f.params args
    withCall closure.unit (withFrame frame (runBody ev f.body.stmts))

def callValue (ev : Level) (function : Value) (args : Args) : EvalM Value := do
  match function with
  | .function cell =>
    match ← readStore (·.functions[cell]?) with
    | some closure => callClosure ev closure args
    | none => fail (.notCallable function.typeName)
  | .builtin b => withNative b.name (onStore ((Native.call b).run' args))
  | v => fail (.notCallable v.typeName)

end Metagen.Eval
