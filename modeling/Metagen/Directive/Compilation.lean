import Metagen.Directive.Basic
import Metagen.Script.Grammar

/-! The script of a directive as one text, and where its lines come from. Before the lines of the
directive stand a comment that names it and a declaration for each name it defines, so that the name
is bound among the names of the directive wherever the script binds it. -/

namespace Metagen

open Script

/-- Where the lines of a script come from. -/
structure UnitMap where
  headerLine : Nat
  bodyLine : Nat
  /-- Number of lines before those of the directive. -/
  preambleLength : Nat
  deriving DecidableEq, Repr

/-- The line of the source that a line of the script comes from. The lines before those of the
directive come from its header. -/
def UnitMap.sourceLine (m : UnitMap) (line : Nat) : Nat :=
  if m.preambleLength < line then m.bodyLine + (line - m.preambleLength - 1) else m.headerLine

/-- A script that is ready to run. -/
structure CompiledUnit where
  map : UnitMap
  script : SourceFile
  program : Program

namespace Directive

/-- The lines before those of the directive. -/
def preamble (d : Directive) : List String :=
  ("# " ++ d.label) :: d.definedNames.map ("global " ++ ·)

/-- Where the lines of the directive's script come from. -/
def unitMap (d : Directive) : UnitMap := ⟨d.headerLine, d.bodyLine, d.preamble.length⟩

def scriptText (d : Directive) : String := "\n".intercalate (d.preamble ++ d.body) ++ "\n"

/-- The diagnostic of a problem in the script of a directive, at the line of the source where it
starts. -/
def scriptDiagnostic (d : Directive) (p : Problem) : Diagnostic :=
  { code := p.code
    kind := .script
    message := match p.suggestion with
      | some s => p.message ++ "; " ++ s
      | none => p.message
    places := [d.place (d.unitMap.sourceLine p.span.start.line) none] }

/-- The diagnostic of a script that is refused without a problem. -/
def unreadable (d : Directive) : Diagnostic :=
  ⟨.unexpectedToken, .script, "meta-directive body could not be parsed",
    [d.place d.headerLine none]⟩

/-- Read the script of a directive. Of several problems in it the first by position counts. -/
def compile (d : Directive) : Except Diagnostic CompiledUnit :=
  let script := SourceFile.ofText d.label d.scriptText
  let parsed := parse script
  match parsed.report.first?, parsed.program with
  | some problem, _ => .error (d.scriptDiagnostic problem)
  | none, some program => .ok ⟨d.unitMap, script, program⟩
  | none, none => .error d.unreadable

end Directive

end Metagen
