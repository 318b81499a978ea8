import Metagen.Directive.Basic
import Metagen.Grouping
import Metagen.Text.Similarity

/-! Names that directives define for each other. Directives are in conflict when two of them
generate one file or define one name, when a name is imported that none defines, or when one imports
what it defines itself; of several conflicts the first in this order counts. Without conflicts,
imports that no header names are added, and every import leads from the one directive that defines
it. -/

namespace Metagen

inductive ResolutionFault where
  | sharedOutput (path : String)
  | sharedName (name : String)
  | unresolved (name : String) (suggestions : List String)
  | selfImport (name : String)
  deriving DecidableEq, Repr

namespace ResolutionFault

def code : ResolutionFault → ErrorCode
  | sharedOutput _ => .duplicateOutput
  | sharedName _ => .duplicateExport
  | unresolved .. => .unresolvedImport
  | selfImport _ => .selfImport

def message : ResolutionFault → String
  | sharedOutput path => "multiple meta-directives output to \"" ++ path ++ "\""
  | sharedName name => "\"" ++ name ++ "\" is exported by multiple meta-directives"
  | unresolved name suggestions =>
    let options := suggestions.map fun s => "\"" ++ s ++ "\""
    "no meta-directive exports \"" ++ name ++ "\"" ++
      if options.isEmpty then "" else "; did you mean " ++ " or ".intercalate options ++ "?"
  | selfImport name => "meta-directive imports \"" ++ name ++ "\", which it exports itself"

def diagnostic (fault : ResolutionFault) (places : List Place) : Diagnostic :=
  ⟨fault.code, .structural, fault.message, places⟩

end ResolutionFault

/-- Which directives depend on which, by their numbers. -/
structure DependencyGraph where
  /-- Pairs of a directive that defines something and one that imports it. -/
  edges : List (Nat × Nat) := []
  deriving DecidableEq, Repr

namespace DependencyGraph

def providers (g : DependencyGraph) (consumer : Nat) : List Nat :=
  (g.edges.filter (·.2 == consumer)).map (·.1)

def consumers (g : DependencyGraph) (provider : Nat) : List Nat :=
  (g.edges.filter (·.1 == provider)).map (·.2)

end DependencyGraph

namespace Resolution

def definitionsByName (ds : List Directive) : List (String × List (Directive × Declaration)) :=
  groupByKey (ds.flatMap fun d => d.definitions.map fun decl => (decl.name, d, decl))

/-- Two directives generate one file. -/
def sharedOutput? (ds : List Directive) : Option Diagnostic :=
  let targets := ds.filterMap fun d => d.include?.map fun target =>
    (Path.parts target.path, target.path, d.place target.line none)
  (groupByKey targets).findSome? fun
    | (_, (path, first) :: second :: rest) =>
      some <| (ResolutionFault.sharedOutput path).diagnostic
        (first :: (second :: rest).map (·.2))
    | _ => none

/-- Two directives define one name, or one directive defines it twice. -/
def sharedName? (ds : List Directive) : Option Diagnostic :=
  (definitionsByName ds).findSome? fun (name, sites) =>
    if 1 < sites.length then
      some <| (ResolutionFault.sharedName name).diagnostic
        (sites.map fun (d, decl) => d.declPlace decl)
    else none

/-- An imported name is defined nowhere. -/
def unresolved? (ds : List Directive) : Option Diagnostic :=
  let names := (definitionsByName ds).map (·.1)
  ds.findSome? fun d => (d.imports.find? fun decl => !names.contains decl.name).map fun decl =>
    (ResolutionFault.unresolved decl.name (Text.suggestions decl.name names)).diagnostic
      [d.declPlace decl]

/-- A directive imports what it defines. -/
def selfImport? (ds : List Directive) : Option Diagnostic :=
  ds.findSome? fun d =>
    (d.imports.find? fun decl => d.definedNames.contains decl.name).map fun decl =>
      (ResolutionFault.selfImport decl.name).diagnostic [d.declPlace decl]

def conflict? (ds : List Directive) : Option Diagnostic :=
  sharedOutput? ds <|> sharedName? ds <|> unresolved? ds <|> selfImport? ds

/-- Add an import that no header names, unless the name is declared already. -/
def addImplicit (d : Directive) (name : String) : Directive :=
  if d.declares name then d else { d with decls := d.decls ++ [⟨.implicit, name, d.headerLine⟩] }

/-- Names that a directive imports without naming them: all if its header names nothing, and the
global ones if it has no list of globals. -/
def implicitNames (defined globals : List String) (d : Directive) : List String :=
  (if d.isExplicit then [] else defined) ++ if d.hasGlobals then [] else globals

def withImplicitImports (ds : List Directive) : List Directive :=
  let defined := ds.flatMap (·.definedNames)
  let globals := ds.flatMap (·.globalNames)
  ds.map fun d => (implicitNames defined globals d).foldl addImplicit d

/-- The number of the directive that defines a name. -/
def definer? (ds : List Directive) (name : String) : Option Nat :=
  ds.findIdx? (·.definedNames.contains name)

def graph (ds : List Directive) : DependencyGraph :=
  ⟨ds.zipIdx.flatMap fun (d, consumer) =>
    ((d.importedNames.filterMap (definer? ds)).map (·, consumer)).eraseDups⟩

def refuseConflict : EStateM Diagnostic (List Directive) Unit := do
  if let some diagnostic := conflict? (← get) then throw diagnostic

/-- Check the directives, then give them the imports that no header names, and tell what depends on
what. The directives are changed where they are. -/
def inPlace : EStateM Diagnostic (List Directive) DependencyGraph := do
  refuseConflict
  modify withImplicitImports
  return graph (← get)

end Resolution

/-- Directives with all their imports, and their dependencies, unless they are in conflict. -/
def resolve (ds : List Directive) : Except Diagnostic (List Directive × DependencyGraph) :=
  match Resolution.inPlace ds with
  | .ok graph ds => .ok (ds, graph)
  | .error diagnostic _ => .error diagnostic

end Metagen
