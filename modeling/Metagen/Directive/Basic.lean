import Metagen.Diagnostic.Basic
import Metagen.Files.Path

/-! Directives: scripts in the sources, with the names they define for each other and take from each
other, and the file they generate. -/

namespace Metagen

/-- How a source carries its directives. -/
inductive ScanMode where
  /-- Directives stand in comments. -/
  | host
  /-- The source is one script with a header. -/
  | script
  deriving DecidableEq, Repr

def scriptExtension : String := "mps"

structure SourceUnit where
  file : SourceFile
  mode : ScanMode

/-- The source with this path and text; its path says how it carries directives. -/
def SourceUnit.ofText (path text : String) : SourceUnit :=
  ⟨.ofText path text, if Path.extension? path == some scriptExtension then .script else .host⟩

inductive DeclKind where
  | exports
  | imports
  /-- A definition that every directive without a `global` list of its own sees. -/
  | global
  /-- An import that no header names. -/
  | implicit
  deriving DecidableEq, Repr

namespace DeclKind

def word : DeclKind → String
  | exports => "export"
  | imports => "import"
  | global => "global"
  | implicit => "implicit"

/-- The kind that a word in a header stands for. -/
def ofHeader? (s : String) : Option DeclKind := [exports, imports, global].find? (·.word == s)

def isDefinition : DeclKind → Bool
  | exports | global => true
  | imports | implicit => false

def isImport (k : DeclKind) : Bool := !k.isDefinition

end DeclKind

/-- A name that a directive defines or imports. -/
structure Declaration where
  kind : DeclKind
  name : String
  /-- The line that declares it; for an implicit import, the first line of the directive. -/
  line : Nat
  deriving DecidableEq, Repr

/-- The file that a directive generates, and the line that names it. -/
structure Include where
  path : String
  line : Nat
  deriving DecidableEq, Repr

structure Directive where
  file : SourceFile
  /-- The first line of the header. -/
  headerLine : Nat
  include? : Option Include
  decls : List Declaration
  /-- The lines of the script. -/
  body : List String
  /-- The line of the source that is the first of the script. -/
  bodyLine : Nat

namespace Directive

def label (d : Directive) : String := d.file.path ++ ":" ++ toString d.headerLine

def definitions (d : Directive) : List Declaration := d.decls.filter (·.kind.isDefinition)

def imports (d : Directive) : List Declaration := d.decls.filter (·.kind.isImport)

def definedNames (d : Directive) : List String := d.definitions.map (·.name)

def importedNames (d : Directive) : List String := d.imports.map (·.name)

def globalNames (d : Directive) : List String :=
  (d.decls.filter (·.kind == .global)).map (·.name)

def declares (d : Directive) (name : String) : Bool := d.decls.any (·.name == name)

def isExplicit (d : Directive) : Bool := d.decls.any (·.kind != .implicit)

def hasGlobals (d : Directive) : Bool := d.decls.any (·.kind == .global)

def place (d : Directive) (line : Nat) (label : Option String) : Place := .ofFile d.file line label

def declPlace (d : Directive) (decl : Declaration) : Place :=
  d.place decl.line (some decl.kind.word)

end Directive

end Metagen
