import Metagen.Directive.Basic
import Metagen.Value.Copy
import Metagen.Value.Environment

/-! Names that directives take from each other. A directive starts with copies of what it imports,
so that nothing it does to them reaches other directives; what it defines is recorded when it has
run. -/

namespace Metagen

/-- Exported values by name, in the order in which they were recorded. -/
abbrev SymbolTable := Bindings Value

namespace SymbolTable

/-- Bind a copy of an exported value, if there is one. -/
def importName (symbols : SymbolTable) (env : Env) (s : Store) (name : String) : Store :=
  match symbols.get? name with
  | some v =>
    let (copy, s) := s.deepCopy v
    env.defineNamespace s name copy
  | none => s

def namespaceFor (symbols : SymbolTable) (d : Directive) (s : Store) : Env × Store :=
  let (env, s) := Env.fresh s
  (env, d.importedNames.foldl (importName symbols env) s)

/-- What a directive's definitions are bound to, or the first one that is not bound. -/
def bound (env : Env) (s : Store) : List Declaration → Except Declaration (List (String × Value))
  | [] => .ok []
  | decl :: rest =>
    match env.namespaceGet? s decl.name with
    | some v => return (decl.name, v) :: (← bound env s rest)
    | none => .error decl

/-- Record the definitions of a directive that has run; the error is the first that is not bound. -/
def record (d : Directive) (env : Env) (s : Store) : EStateM Declaration SymbolTable Unit := do
  match bound env s d.definitions with
  | .ok values =>
    modify fun symbols => values.foldl (fun t entry => t.insert entry.1 entry.2) symbols
  | .error decl => throw decl

end SymbolTable

end Metagen
