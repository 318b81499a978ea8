import Metagen.Text.Blank

/-! Lines and indentation. A text is cut into lines at line feeds; a block of lines is moved left by
the indentation its lines share. Blank lines become empty and never count towards that indentation,
and neither do lines that start with a given comment mark. -/

namespace Metagen.Text

/-- The pieces between line feeds; a text with `n` line feeds has `n + 1` pieces. -/
def pieces (s : String) : List String := (s.toList.splitOn '\n').map .ofList

/-- Drop one carriage return at the end. -/
def dropReturn (cs : List Char) : List Char :=
  match cs.reverse with
  | '\r' :: rest => rest.reverse
  | _ => cs

/-- The lines of a text, without terminators. A line ends at a line feed, and a carriage return
right before it belongs to the terminator; text after the last line feed is a line of its own
unless it is empty, and keeps its carriage return. -/
def lines (s : String) : List String :=
  let parts := s.toList.splitOn '\n'
  let ended := parts.dropLast.map fun p => String.ofList (dropReturn p)
  match parts.getLast? with
  | some (c :: cs) => ended ++ [.ofList (c :: cs)]
  | _ => ended

/-- A line that takes part in measuring the common indentation: not blank, and not a comment. -/
def measures (comment : Option String) (line : String) : Bool :=
  !isAllBlank line &&
    match comment with
    | none => true
    | some mark => !mark.toList.isPrefixOf (trimStart line).toList

/-- The least number of leading blank characters over the lines that measure, zero without any. -/
def commonIndent (comment : Option String) (block : List String) : Nat :=
  ((block.filter (measures comment)).map leadingBlanks).min?.getD 0

/-- Remove up to `n` leading blank characters and all trailing ones; a blank line becomes empty. -/
def shiftLeft (n : Nat) (line : String) : String :=
  if isAllBlank line then ""
  else trimEnd (.ofList (line.toList.drop (min n (leadingBlanks line))))

/-- Move a block of lines left by its common indentation. -/
def dedentLines (comment : Option String) (block : List String) : List String :=
  block.map (shiftLeft (commonIndent comment block))

/-- The lines of a literal: its first line is dropped when blank, as after opening quotes, and then
its last line when blank, as before closing quotes, unless it is the only one left. -/
def literalLines (s : String) : List String :=
  let all := lines s
  let body := match all with
    | first :: rest => if isAllBlank first then rest else all
    | [] => []
  match body.getLast? with
  | some last => if 1 < body.length && isAllBlank last then body.dropLast else body
  | none => body

structure DedentOptions where
  /-- Drop the blank first and last line of a literal. -/
  literal : Bool := false
  /-- Lines starting with this mark do not count towards the common indentation. -/
  comment : Option String := none
  /-- Put before every line that is not empty. -/
  indent : String := ""

/-- Remove the common indentation of a text. The result has no terminator after its last line. -/
def dedent (options : DedentOptions) (s : String) : String :=
  let block := if options.literal then literalLines s else lines s
  "\n".intercalate <| (dedentLines options.comment block).map fun line =>
    if line.isEmpty then line else options.indent ++ line

end Metagen.Text
