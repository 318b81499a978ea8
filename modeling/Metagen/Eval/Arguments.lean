import Metagen.Eval.Fault
import Metagen.Value.Store

/-! Arguments of a call, taken one parameter after the other. A parameter takes the argument with
its name if there is one, and otherwise the next positional one; what is left over at the end is
refused. -/

namespace Metagen.Eval

/-- Arguments that have not been taken yet. -/
structure Args where
  /-- How the called function is named in messages. -/
  callee : String
  positional : List Value := []
  named : Bindings Value := {}

namespace Args

def takeNamed (a : Args) (name : String) : Option (Value × Args) :=
  (a.named.get? name).map (·, { a with named := a.named.erase name })

def take (a : Args) (name : String) : Option (Value × Args) :=
  match a.takeNamed name, a.positional with
  | some taken, _ => some taken
  | none, v :: rest => some (v, { a with positional := rest })
  | none, [] => none

/-- What is wrong with the arguments that no parameter has taken. -/
def leftOver? (a : Args) : Option Fault :=
  match a.named.names, a.positional with
  | name :: _, _ => some (.unexpectedArgument a.callee name)
  | [], [] => none
  | [], rest => some (.extraArguments a.callee rest.length)

end Args

/-- Functions that take arguments and may read and change the store, but never run a script. -/
abbrev Native := StateT Args (EStateM Fault Store)

namespace Native

def read {α : Type} (f : Store → α) : Native α := fun a s => .ok (f s, a) s

def change (f : Store → Store) : Native Unit := fun a s => .ok ((), a) (f s)

def make {α : Type} (f : Store → α × Store) : Native α := fun a s =>
  let (made, s) := f s
  .ok (made, a) s

def fail {α : Type} (fault : Fault) : Native α := fun _ s => .error fault s

def optional (name : String) : Native (Option Value) := fun a s =>
  match a.take name with
  | some (v, a) => .ok (some v, a) s
  | none => .ok (none, a) s

def optionalNamed (name : String) : Native (Option Value) := fun a s =>
  match a.takeNamed name with
  | some (v, a) => .ok (some v, a) s
  | none => .ok (none, a) s

def required (name : String) : Native Value := fun a s =>
  match a.take name with
  | some (v, a) => .ok (v, a) s
  | none => .error (.missingArgument a.callee name) s

/-- Take all positional arguments that are left. -/
def rest : Native (List Value) := fun a s => .ok (a.positional, { a with positional := [] }) s

def finish : Native Unit := fun a s =>
  match a.leftOver? with
  | some fault => .error fault s
  | none => .ok ((), a) s

/-- The text that a value is; `what` names the argument. -/
def text (what : String) : Value → Native String
  | .text t => pure t
  | v => fail (.wrongType what "a string" v.typeName)

def int (what : String) : Value → Native Int64
  | .int n => pure n
  | v => fail (.wrongType what "an int" v.typeName)

def items (what : String) : Value → Native (Array Value)
  | .list cell => read (·.listAt cell)
  | v => fail (.wrongType what "a list" v.typeName)

def fields (what : String) : Value → Native (Bindings Value)
  | .record cell => read (·.recordAt cell)
  | v => fail (.wrongType what "a record" v.typeName)

/-- The text of an argument that is missing or nil, or is a text. -/
def optionalText (what : String) : Option Value → Native (Option String)
  | none | some .nil => pure none
  | some v => some <$> text what v

end Native

end Metagen.Eval
