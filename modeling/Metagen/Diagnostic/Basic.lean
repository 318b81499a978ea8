import Metagen.Eval.Fault
import Metagen.Source.File
import Metagen.Source.Problem

/-! Diagnostics: what stops a run, with the places in the sources that it concerns. -/

namespace Metagen

inductive DiagnosticKind where
  /-- Headers, delimiters, and directives in conflict with each other. -/
  | structural
  /-- A script that cannot be read. -/
  | script
  /-- A script that failed. -/
  | runtime (kind : Eval.FaultKind)
  /-- A directive that did not bind what it promised; the message is the name. -/
  | unboundExport
  deriving DecidableEq, Repr

/-- A place that a diagnostic concerns. -/
inductive Place where
  /-- A line of a source, with the numbered lines around it. -/
  | source (path : String) (line : Nat) (label : Option String) (window : List (Nat × String))
  /-- Something that is written in no source. -/
  | native (label : String)
  deriving DecidableEq, Repr

/-- How many lines are shown on each side of a line. -/
def windowMargin : Nat := 3

def Place.ofFile (file : SourceFile) (line : Nat) (label : Option String) : Place :=
  .source file.path line label (file.window line windowMargin)

structure Diagnostic where
  code : ErrorCode
  kind : DiagnosticKind
  message : String
  /-- The closest place first. -/
  places : List Place
  deriving DecidableEq, Repr

namespace Diagnostic

/-- The line that says what kind of failure it is. -/
def heading (d : Diagnostic) : String :=
  match d.kind with
  | .structural => "Meta-preprocessor exception."
  | .script => "Syntax exception."
  | .runtime .name => "Name exception."
  | .runtime .attribute => "Attribute exception."
  | .runtime .key => "Key exception."
  | .runtime .value => "Value exception."
  | .runtime .assertion => "Assert exception."
  | .runtime .type => "Type exception."
  | .runtime .other => "Runtime exception."
  | .unboundExport => "Meta-directive did not define \"" ++ d.message ++ "\"."

/-- What is said under the heading, with one full stop. The heading of an unbound export says all
there is. -/
def detail? (d : Diagnostic) : Option String :=
  if d.kind == .unboundExport || d.message.isEmpty then none
  else some (.ofList ((d.message.toList.reverse.dropWhile (· == '.')).reverse) ++ ".")

/-- Path and line of the closest place that is in a source. -/
def location? (d : Diagnostic) : Option (String × Nat) :=
  d.places.findSome? fun
    | .source path line _ _ => some (path, line)
    | .native _ => none

def summary (d : Diagnostic) : String :=
  d.code.render ++ " " ++ d.heading
    ++ (match d.detail? with
      | some detail => " " ++ detail
      | none => "")
    ++ match d.location? with
      | some (path, line) => " (" ++ path ++ ":" ++ toString line ++ ")"
      | none => ""

end Diagnostic

end Metagen
