import Metagen.Emission.Emitter

/-! Actions that emit. An action may fail at any point, and it may belong to something larger than
the emitter, such as a running script, so that the state is any type that holds an emitter. Whatever
its body does, a scope or a section that was opened is closed again. -/

namespace Metagen.Emission

/-- A state with an emitter in it. -/
class HoldsEmitter (State : Type) where
  emitter : State → Emitter
  setEmitter : State → Emitter → State
  emitter_setEmitter (s : State) (e : Emitter) : emitter (setEmitter s e) = e
  setEmitter_setEmitter (s : State) (e f : Emitter) : setEmitter (setEmitter s e) f = setEmitter s f

instance : HoldsEmitter Emitter where
  emitter e := e
  setEmitter _ e := e
  emitter_setEmitter _ _ := rfl
  setEmitter_setEmitter _ _ _ := rfl

/-- An action on a state, with failures of type `Failure`. -/
abbrev Action (Failure State Result : Type) := EStateM Failure State Result

abbrev Emit := Action EmissionError Emitter

variable {Failure State Result : Type} [HoldsEmitter State]

open HoldsEmitter

def changeEmitter (change : Emitter → Emitter) : Action Failure State Unit := fun s =>
  .ok () (setEmitter s (change (emitter s)))

/-- Run an action of the emitter within a larger state. -/
def liftEmit (wrap : EmissionError → Failure) (action : Emit Result) :
    Action Failure State Result :=
  fun s =>
    match action (emitter s) with
    | .ok result e => .ok result (setEmitter s e)
    | .error error e => .error (wrap error) (setEmitter s e)

/-- Run an action, and change the emitter after it, also when it fails. -/
def andAfter (body : Action Failure State Result) (change : Emitter → Emitter) :
    Action Failure State Result := fun s =>
  match body s with
  | .ok result s => .ok result (setEmitter s (change (emitter s)))
  | .error failure s => .error failure (setEmitter s (change (emitter s)))

def withScope (scope : Scope) (body : Action Failure State Result) : Action Failure State Result :=
  fun s =>
    let (side, e) := (emitter s).enter scope
    andAfter body (·.exit side) (setEmitter s e)

def withSection (text : String) (body : Action Failure State Result) :
    Action Failure State Result :=
  fun s => andAfter body (·.endSection) (setEmitter s ((emitter s).beginSection text))

end Metagen.Emission
