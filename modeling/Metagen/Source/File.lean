import Metagen.Text.Lines

/-! Source files: a text with its path, read once, and its lines by number. -/

namespace Metagen

open Text

/-- Where lines start in characters that begin at this byte offset: behind each line feed. -/
def startsBehind (here : String.Pos.Raw) : List Char → List String.Pos.Raw
  | [] => []
  | c :: cs =>
    if c == '\n' then (here + c) :: startsBehind (here + c) cs else startsBehind (here + c) cs

/-- A text and where it came from. The byte offsets where its lines start are kept for look-up. -/
structure SourceFile where
  path : String
  text : String
  starts : Array String.Pos.Raw
  starts_eq : starts = (0 :: startsBehind 0 text.toList).toArray

namespace SourceFile

def ofText (path text : String) : SourceFile := ⟨path, text, _, rfl⟩

/-- Where line `n` stops: at the line feed in front of the next line, or at the end of the text. -/
def stopIn (text : String) (starts : Array String.Pos.Raw) (n : Nat) : String.Pos.Raw :=
  match starts[n]? with
  | some next => ⟨next.byteIdx - 1⟩
  | none => text.rawEndPos

/-- A line by its number, without the carriage returns at its end. What starts behind a last line
feed does not count as a line, but it is not refused. -/
def line? : SourceFile → Nat → Option String
  | _, 0 => none
  | ⟨_, text, starts, _⟩, n + 1 => starts[n]?.map fun start =>
    .ofList (dropTrailing (· == '\r') (start.extract text (stopIn text starts (n + 1))).toList)

/-- Number of lines. A line feed at the end of the text does not open another line, and the empty
text has one. -/
def lineCount : SourceFile → Nat
  | ⟨_, text, starts, _⟩ =>
    let n := starts.size
    if 1 < n && text.toList.getLast? == some '\n' then n - 1 else n

def lines (file : SourceFile) : List String :=
  (List.range file.lineCount).filterMap fun i => file.line? (i + 1)

/-- The lines at most `margin` away from line `n`, with their numbers. -/
def window (file : SourceFile) (n margin : Nat) : List (Nat × String) :=
  let first := max 1 (n - margin)
  let last := min (n + margin) file.lineCount
  (List.range' first (last + 1 - first)).filterMap fun k => (file.line? k).map (k, ·)

end SourceFile

end Metagen
