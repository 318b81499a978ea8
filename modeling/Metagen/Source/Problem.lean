import Metagen.Source.Span

/-! Problems found in a script before it runs. A problem has a number whose hundreds say what kind
of problem it is; a report keeps the first twenty problems and counts them all. -/

namespace Metagen

inductive Category where
  /-- A malformed script. -/
  | script
  /-- A malformed directive header, or a body that does not end. -/
  | header
  /-- Directives in conflict with each other. -/
  | resolution
  /-- A failure while a directive runs. -/
  | execution
  /-- A directive that did not bind what it promised. -/
  | exported
  deriving DecidableEq, Repr

def Category.word : Category → String
  | .script => "syntax"
  | .header => "header"
  | .resolution => "resolution"
  | .execution => "execution"
  | .exported => "export"

structure ErrorCode where
  number : Nat
  deriving DecidableEq, Repr

namespace ErrorCode

/-- The kind of problems with this number; numbers outside the table count as failures of a run. -/
def category (code : ErrorCode) : Category :=
  match code.number / 100 with
  | 1 => .script
  | 2 => .header
  | 3 => .resolution
  | 5 => .exported
  | _ => .execution

/-- A number is shown after the letter E. -/
def render (code : ErrorCode) : String := "E" ++ toString code.number

def unexpectedToken : ErrorCode := ⟨100⟩
def unterminatedString : ErrorCode := ⟨101⟩
def invalidEscape : ErrorCode := ⟨102⟩
def invalidNumber : ErrorCode := ⟨103⟩
def invalidAssignTarget : ErrorCode := ⟨104⟩
def unexpectedCharacter : ErrorCode := ⟨105⟩
def unknownHeaderKind : ErrorCode := ⟨200⟩
def emptyIdentifierList : ErrorCode := ⟨201⟩
def invalidIdentifier : ErrorCode := ⟨202⟩
def reservedIdentifier : ErrorCode := ⟨203⟩
def duplicateIdentifier : ErrorCode := ⟨204⟩
def unterminatedBody : ErrorCode := ⟨205⟩
def duplicateOutput : ErrorCode := ⟨300⟩
def duplicateExport : ErrorCode := ⟨301⟩
def unresolvedImport : ErrorCode := ⟨302⟩
def selfImport : ErrorCode := ⟨303⟩
def circularDependency : ErrorCode := ⟨304⟩
def runtimeFailure : ErrorCode := ⟨400⟩
def unboundExport : ErrorCode := ⟨500⟩

end ErrorCode

/-- A problem in a script: what it is, where it is, and the line it is on. -/
structure Problem where
  /-- Name of the script. -/
  unit : String
  code : ErrorCode
  message : String
  span : Span
  sourceLine : String
  /-- How the problem might be mended. -/
  suggestion : Option String := none
  deriving DecidableEq, Repr

/-- One line for a problem: position, number, kind and message. -/
def Problem.render (p : Problem) : String :=
  p.span.render ++ ": " ++ p.code.render ++ " [" ++ p.code.category.word ++ "] " ++ p.message

def maxProblems : Nat := 20

/-- The problems of one script, in the order they were found. -/
structure Report where
  kept : List Problem := []
  /-- How many were found, kept or not. -/
  total : Nat := 0
  deriving DecidableEq, Repr

namespace Report

/-- Add a problem; past the limit it is only counted. -/
def push (r : Report) (p : Problem) : Report :=
  ⟨if r.kept.length < maxProblems then r.kept ++ [p] else r.kept, r.total + 1⟩

def hasProblems (r : Report) : Bool := 0 < r.total

/-- As many problems were found as a report keeps. -/
def isFull (r : Report) : Bool := maxProblems ≤ r.total

/-- The kept problem that starts first; of several at one position, the one found first. -/
def first? (r : Report) : Option Problem :=
  r.kept.foldl (fun best p =>
    match best with
    | none => some p
    | some b => if p.span.start.before b.span.start then some p else some b) none

end Report

end Metagen
