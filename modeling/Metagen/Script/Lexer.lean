import Metagen.Script.TextScan
import Metagen.Source.File

/-! From the text of a script to its tokens. Blanks and comments are skipped, line ends are tokens.
Which rule applies is decided by a stack of modes: code, the text of a string, or a hole of one. A
fault does not stop the scan, but once a report is full nothing more is read. -/

namespace Metagen

/-- A problem of this file, with the line it starts on. -/
def SourceFile.problem (file : SourceFile) (code : ErrorCode) (message : String) (span : Span)
    (suggestion : Option String := none) : Problem :=
  { unit := file.path, code, message, span, suggestion
    sourceLine := (file.line? span.start.line).getD "" }

namespace Script

/-- What is being read inside the strings around it. -/
inductive Mode where
  /-- The text of a string. -/
  | text (triple : Bool)
  /-- A hole of a string, with the number of braces open in it. -/
  | hole (triple : Bool) (depth : Nat)
  deriving DecidableEq, Repr

/-- Where the scan stands: what is left, the modes around it, innermost first, and the faults. -/
structure Scan where
  rest : List Char
  position : Position
  modes : List Mode
  report : Report

namespace Scan

def fault (s : Scan) (file : SourceFile) (f : LexFault) (span : Span) : Scan :=
  { s with report := s.report.push (file.problem f.code f.message span f.suggestion) }

/-- Pass over `n` characters that hold no line end. -/
def skip (s : Scan) (n : Nat) : Scan :=
  { s with rest := s.rest.drop n, position := ⟨s.position.line, s.position.column + n⟩ }

/-- Spaces, tabs and carriage returns. -/
def isGap (c : Char) : Bool := c == ' ' || c == '\t' || c == '\r'

/-- Pass over gaps and a comment, which runs to the end of its line. -/
def skipIgnored (s : Scan) : Scan :=
  let s := s.skip (s.rest.takeWhile isGap).length
  match s.rest with
  | '#' :: _ => s.skip (s.rest.takeWhile (· != '\n')).length
  | _ => s

/-- Turn the text of a string into tokens. `start` is where its first token starts, and `opening`
tells whether the text follows opening quotes rather than a hole. `textStart` is where the text
starts, which is where an unterminated string is reported. -/
def takeText (s : Scan) (file : SourceFile) (triple opening : Bool) (start : Position) :
    List Token × Scan :=
  let textStart := s.position
  let scanned := scanText triple [] [] textStart s.rest
  let s := scanned.faults.foldl (fun s (f, span) => s.fault file f span) s
  let s := { s with rest := scanned.rest, position := scanned.position }
  let outer := if opening then s.modes else s.modes.tail
  let span := start.spanTo s.position
  let whole := if opening then TokenKind.text scanned.text else .textEnd scanned.text
  match scanned.ending with
  | .closed => ([⟨whole, span⟩], { s with modes := outer })
  | .unterminated =>
    let s := s.fault file .unterminatedString (textStart.spanTo s.position)
    ([⟨whole, span⟩], { s with modes := outer })
  | .hole =>
    let s := { s with modes := .hole triple 0 :: outer }
    let before := if opening then TokenKind.textStart scanned.text else .textPart scanned.text
    let mark : Position := ⟨s.position.line, s.position.column - 2⟩
    let opened : Token := ⟨.mark .holeStart, mark.spanTo s.position⟩
    (⟨before, span⟩ :: (if s.report.isFull then [] else [opened]), s)

/-- How a brace acts on the modes: inside a hole it opens or closes a level, and the brace that
closes the hole itself is no brace but the end of the hole. -/
def brace (s : Scan) (symbol : Symbol) : Mark × Scan :=
  match symbol, s.modes with
  | .leftBrace, .hole triple depth :: outer =>
    (.symbol symbol, { s with modes := .hole triple (depth + 1) :: outer })
  | .rightBrace, .hole triple 0 :: outer => (.holeEnd, { s with modes := .text triple :: outer })
  | .rightBrace, .hole triple (depth + 1) :: outer =>
    (.symbol symbol, { s with modes := .hole triple depth :: outer })
  | _, _ => (.symbol symbol, s)

/-- The tokens of code from here up to the first token that is no fault. Every round but the last
records a fault, so that as many rounds as a report keeps faults are enough. The flag tells that the
input is done. -/
def takeCode (file : SourceFile) : Nat → Scan → List Token × Scan × Bool
  | 0, s => ([⟨.mark .endOfInput, .point s.position⟩], s, true)
  | fuel + 1, s =>
    let s := s.skipIgnored
    if s.report.isFull then ([⟨.mark .endOfInput, .point s.position⟩], s, true)
    else
      let start := s.position
      match s.rest with
      | [] =>
        let s := if s.modes.isEmpty then s else s.fault file .unterminatedString (.point start)
        ([⟨.mark .endOfInput, .point start⟩], s, true)
      | c :: cs =>
        if c == '"' then
          let triple := cs.take 2 == ['"', '"']
          let (tokens, s) := (s.skip (if triple then 3 else 1)).takeText file triple true start
          (tokens, s, false)
        else
          let lexeme := Lexeme.ofCode c cs
          let next :=
            if c == '\n' then start.after c else ⟨start.line, start.column + lexeme.length⟩
          let span := start.spanTo next
          let s := { s with rest := s.rest.drop lexeme.length, position := next }
          let s := match lexeme.fault with
            | some f => s.fault file f span
            | none => s
          match lexeme.kind with
          | none => takeCode file fuel s
          | some (.mark (.symbol symbol)) =>
            let (mark, s) := s.brace symbol
            ([⟨.mark mark, span⟩], s, false)
          | some kind => ([⟨kind, span⟩], s, false)

/-- All tokens from here, the end mark included, after those in `done`, which are in reverse. -/
def takeAll (file : SourceFile) : Nat → List Token → Scan → List Token × Report
  | 0, done, s => ((⟨.mark .endOfInput, .point s.position⟩ :: done).reverse, s.report)
  | fuel + 1, done, s =>
    if s.report.isFull then ((⟨.mark .endOfInput, .point s.position⟩ :: done).reverse, s.report)
    else match s.modes with
      | .text triple :: _ =>
        let (tokens, s) := s.takeText file triple false s.position
        takeAll file fuel (tokens.reverse ++ done) s
      | _ =>
        let (tokens, s, finished) := s.takeCode file (maxProblems + 1)
        if finished then ((tokens.reverse ++ done).reverse, s.report)
        else takeAll file fuel (tokens.reverse ++ done) s

end Scan

/-- The tokens of a script, with the end mark as the last one, and its faults. Every step but the
last reads a character or leaves a string, so that twice as many steps as characters suffice. -/
def tokens (file : SourceFile) : List Token × Report :=
  let cs := file.text.toList
  Scan.takeAll file (2 * cs.length + 2) [] ⟨cs, .origin, [], {}⟩

end Script

end Metagen
