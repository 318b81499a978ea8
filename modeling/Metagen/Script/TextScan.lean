import Metagen.Script.Lexeme

/-! The text of a string, up to its closing quotes or its next hole. A string between single quotes
ends at the end of its line at the latest; one between triple quotes runs over lines. -/

namespace Metagen

/-- The position after a character. -/
def Position.after (p : Position) (c : Char) : Position :=
  if c == '\n' then ⟨p.line + 1, 1⟩ else ⟨p.line, p.column + 1⟩

/-- The range from `start` to the character before `p`; in the first column it stays there. -/
def Position.spanTo (start p : Position) : Span := ⟨start, ⟨p.line, max (p.column - 1) 1⟩⟩

namespace Script

/-- How the text of a string ended. -/
inductive TextEnd where
  /-- At the closing quotes. -/
  | closed
  /-- At the mark that opens a hole. -/
  | hole
  /-- At the end of the line or of the input. -/
  | unterminated
  deriving DecidableEq, Repr

/-- A scanned text, where the scan stopped, and the faults of its escapes. -/
structure TextScan where
  text : String
  ending : TextEnd
  rest : List Char
  position : Position
  faults : List (LexFault × Span)

def escape? : Char → Option Char
  | '"' => some '"'
  | '\\' => some '\\'
  | 'n' => some '\n'
  | 't' => some '\t'
  | 'r' => some '\r'
  | '0' => some '\x00'
  | '$' => some '$'
  | _ => none

/-- What stands in the text for an escape that is none: the first byte of the character as a
character of its own, and a replacement character for each further byte. -/
def brokenEscape (c : Char) : Char × List Char :=
  match String.utf8EncodeChar c with
  | first :: others => (Char.ofNat first.toNat, others.map fun _ => '\uFFFD')
  | [] => (c, [])

/-- Scan text from `p` on; `done` is the text so far and `faults` are the faults so far, both in
reverse. -/
def scanText (triple : Bool) (done : List Char) (faults : List (LexFault × Span)) (p : Position) :
    List Char → TextScan
  | [] => ⟨.ofList done.reverse, .unterminated, [], p, faults.reverse⟩
  | c :: cs =>
    if c == '"' && (!triple || cs.take 2 == ['"', '"']) then
      let quotes := if triple then 3 else 1
      ⟨.ofList done.reverse, .closed, (c :: cs).drop quotes, ⟨p.line, p.column + quotes⟩,
        faults.reverse⟩
    else if c == '\n' && !triple then
      ⟨.ofList done.reverse, .unterminated, c :: cs, p, faults.reverse⟩
    else if c == '$' && cs.head? == some '{' then
      ⟨.ofList done.reverse, .hole, cs.drop 1, ⟨p.line, p.column + 2⟩, faults.reverse⟩
    else if c == '\\' then
      match cs with
      | [] =>
        let fault := (LexFault.unfinishedEscape, p.spanTo (p.after c))
        ⟨.ofList done.reverse, .unterminated, [], p.after c, (fault :: faults).reverse⟩
      | e :: more =>
        let next := (p.after c).after e
        match escape? e with
        | some meant => scanText triple (meant :: done) faults next more
        | none =>
          let (shown, others) := brokenEscape e
          let fault := (LexFault.unknownEscape shown, p.spanTo next)
          scanText triple (others ++ shown :: done) (fault :: faults) next more
    else scanText triple (c :: done) faults (p.after c) cs

end Script

end Metagen
