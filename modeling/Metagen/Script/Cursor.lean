import Metagen.Script.Lexer
import Metagen.Script.Tree

/-! Reading tokens one by one. A cursor always stands on a token, and the end mark is never passed.
Rules that read are state changes that may give up; a rule that gives up has reported why. -/

namespace Metagen.Script

/-- The token read last, the one at the cursor, and those after it. -/
structure Cursor where
  previous : Option Span
  current : Token
  upcoming : List Token

namespace Cursor

def advance (c : Cursor) : Cursor :=
  match c.upcoming with
  | [] => c
  | t :: ts => ⟨some c.current.span, t, ts⟩

/-- Step over line ends, given what the cursor consists of. -/
def passNewlines (previous : Option Span) (current : Token) : List Token → Cursor
  | [] => ⟨previous, current, []⟩
  | t :: ts =>
    if current.kind = .mark .newline then passNewlines (some current.span) t ts
    else ⟨previous, current, t :: ts⟩

def skipNewlines (c : Cursor) : Cursor := passNewlines c.previous c.current c.upcoming

/-- The first token from the cursor on that is no line end. -/
def pastNewlines (c : Cursor) : TokenKind := c.skipNewlines.current.kind

/-- Marks at which a statement starts, or a block ends. -/
def isBoundary : TokenKind → Bool
  | .mark (.keyword k) =>
    k ∈ [.letWord, .setWord, .fnWord, .ifWord, .forWord, .whileWord, .returnWord, .assertWord,
      .globalWord]
  | .mark (.symbol .rightBrace) => true
  | _ => false

/-- Step to where the next statement may start, given what the cursor consists of: past the next
line end, or onto a boundary or the end. -/
def passStatement (previous : Option Span) (current : Token) : List Token → Cursor
  | [] => ⟨previous, current, []⟩
  | t :: ts =>
    if current.kind = .mark .endOfInput then ⟨previous, current, t :: ts⟩
    else if current.kind = .mark .newline then passNewlines (some current.span) t ts
    else if isBoundary current.kind then ⟨previous, current, t :: ts⟩
    else passStatement (some current.span) t ts

/-- Step to where the next statement may start. -/
def resync (c : Cursor) : Cursor := passStatement c.previous c.current c.upcoming

end Cursor

/-- What the rules of the grammar read and write. -/
structure Reading where
  file : SourceFile
  cursor : Cursor
  report : Report
  /-- Expressions around the cursor. -/
  depth : Nat

/-- A rule of the grammar: it changes the reading and yields a tree, or gives up. -/
abbrev Rule (Result : Type) := EStateM Unit Reading Result

namespace Rule

variable {Result : Type}

def fail : Rule Result := throw ()

def peek : Rule TokenKind := return (← get).cursor.current.kind

def peekNext : Rule TokenKind := do
  match (← get).cursor.upcoming with
  | t :: _ => return t.kind
  | [] => return .mark .endOfInput

def currentSpan : Rule Span := return (← get).cursor.current.span

/-- The range of the token read last; before the first one, the first position. -/
def previousSpan : Rule Span := return (← get).cursor.previous.getD (.point .origin)

def advance : Rule Token :=
  modifyGet fun r => (r.cursor.current, { r with cursor := r.cursor.advance })

def at? (mark : Mark) : Rule Bool := return (← peek) = .mark mark

/-- Read the mark if it stands at the cursor. -/
def eat (mark : Mark) : Rule Bool := do
  if ← at? mark then
    discard advance
    return true
  return false

def skipNewlines : Rule Unit := modify fun r => { r with cursor := r.cursor.skipNewlines }

/-- Step to where the next statement may start. -/
def resync : Rule Unit := modify fun r => { r with cursor := r.cursor.resync }

def problemAt (code : ErrorCode) (message : String) (span : Span) : Rule Unit :=
  modify fun r => { r with report := r.report.push (r.file.problem code message span) }

def problem (code : ErrorCode) (message : String) : Rule Unit := do
  problemAt code message (← currentSpan)

/-- Report an unexpected token at the cursor, and give up. -/
def unexpected (message : String) : Rule Result := do
  problem .unexpectedToken message
  fail

/-- As many problems were found as a report keeps. -/
def isFull : Rule Bool := return (← get).report.isFull

def inQuotes (s : String) : String := "'" ++ s ++ "'"

def expect (mark : Mark) : Rule Unit := do
  unless ← eat mark do
    unexpected ("expected " ++ inQuotes mark.render ++ ", got " ++ inQuotes (← peek).render)

def expectName : Rule Ident := do
  match ← peek with
  | .name name => return ⟨name, (← advance).span⟩
  | kind =>
    match kind.keyword? with
    | some word =>
      unexpected (inQuotes word.spelling ++ " is a reserved word and cannot be used as a name")
    | none => unexpected ("expected identifier, got " ++ inQuotes kind.render)

/-- Read the name of a field or a key: a name, a reserved word, or a string without holes. -/
def expectFieldName : Rule Ident := do
  match ← peek with
  | .name name | .text name => return ⟨name, (← advance).span⟩
  | kind =>
    match kind.keyword? with
    | some word => return ⟨word.spelling, (← advance).span⟩
    | none => unexpected ("expected field name, got " ++ inQuotes kind.render)

/-- The end of a statement: a line end, which is read with those after it, or a closing brace or the
end, which are not read. Anything else is reported and stays. -/
def expectStatementEnd : Rule Unit := do
  match ← peek with
  | .mark .endOfInput | .mark (.symbol .rightBrace) => pure ()
  | .mark .newline => skipNewlines
  | kind => problem .unexpectedToken ("expected newline, got " ++ inQuotes kind.render)

/-- Run a rule and say whether it gave up, keeping what it read and reported. -/
def orElseNone (rule : Rule Result) : Rule (Option Result) := fun r =>
  match rule r with
  | .ok result r => .ok (some result) r
  | .error () r => .ok none r

/-- A bound on the rounds of a loop that reads a token or reports a problem in each, up to the
limit. -/
def rounds : Rule Nat := return (← get).cursor.upcoming.length + maxProblems + 2

/-- Items between commas up to the closing mark, which is not read. Line ends may stand around each
item, and a comma may follow the last. An item is read knowing those before it. -/
def separated (close : Mark) (item : List Result → Rule Result) :
    Nat → List Result → Rule (List Result)
  | 0, _ => fail
  | fuel + 1, before => do
    if ← at? close then return before
    let next ← item before
    skipNewlines
    if ← eat (.symbol .comma) then
      skipNewlines
      separated close item fuel (before ++ [next])
    else return before ++ [next]

def separatedUpTo (close : Mark) (item : List Result → Rule Result) : Rule (List Result) := do
  skipNewlines
  let items ← separated close item (← rounds) []
  expect close
  return items

end Rule

end Metagen.Script
