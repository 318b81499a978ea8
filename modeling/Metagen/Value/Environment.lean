import Metagen.Value.Store

/-! Names and scopes. A name is looked up from the innermost scope outwards, the names of the
directive being the outermost. It is bound in the innermost scope, except for declared globals,
which are bound among the names of the directive. -/

namespace Metagen.Env

/-- The scopes of a directive that has bound nothing yet. -/
def fresh (s : Store) : Env × Store :=
  let (cell, s) := s.newNamespace
  ({ namespaceCell := cell }, s)

def push (env : Env) (s : Store) : Env × Store :=
  let (cell, s) := s.newScope
  ({ env with inner := cell :: env.inner }, s)

/-- Leave the innermost scope; the names of the directive are never left. -/
def pop (env : Env) : Env := { env with inner := env.inner.tail }

def depth (env : Env) : Nat := env.inner.length + 1

/-- Have a name bound among the names of the directive. -/
def declareGlobal (env : Env) (s : Store) (name : String) : Store :=
  s.modifyNamespace env.namespaceCell fun n =>
    if n.globals.contains name then n else { n with globals := name :: n.globals }

def isGlobal (env : Env) (s : Store) (name : String) : Bool :=
  (s.namespaceAt env.namespaceCell).globals.contains name

def defineNamespace (env : Env) (s : Store) (name : String) (value : Value) : Store :=
  s.modifyNamespace env.namespaceCell fun n => { n with bindings := n.bindings.insert name value }

def define (env : Env) (s : Store) (name : String) (value : Value) : Store :=
  match env.inner with
  | cell :: _ =>
    if env.isGlobal s name then env.defineNamespace s name value
    else s.modifyScope cell (·.insert name value)
  | [] => env.defineNamespace s name value

/-- What a name is bound to among the names of the directive. -/
def namespaceGet? (env : Env) (s : Store) (name : String) : Option Value :=
  (s.namespaceAt env.namespaceCell).bindings.get? name

/-- Names of the directive, in the order in which they were bound. -/
def namespaceNames (env : Env) (s : Store) : List String :=
  (s.namespaceAt env.namespaceCell).bindings.names

def get? (env : Env) (s : Store) (name : String) : Option Value :=
  (env.inner.findSome? fun cell => (s.scopeAt cell).get? name) <|> env.namespaceGet? s name

/-- Give a bound name another value, where it is bound. A declared global may be bound this way;
any other name that is not bound is refused. -/
def set? (env : Env) (s : Store) (name : String) (value : Value) : Option Store :=
  match env.inner.find? fun cell => (s.scopeAt cell).contains name with
  | some cell => some (s.modifyScope cell (·.insert name value))
  | none =>
    if (env.namespaceGet? s name).isSome || env.isGlobal s name then
      some (env.defineNamespace s name value)
    else none

end Metagen.Env
