import Metagen.Text.Ranges
import Metagen.Text.Blank

/-! Scopes of generated text. What surrounds a block follows from the keyword its header starts
with: a definition has no delimiters and continues its lines, conditional compilation ends in
`#endif`, and so on, down to braces for anything else. A request may override what follows from its
header. -/

namespace Metagen.Emission

open Text

structure Delimiters where
  opening : Option String := none
  closing : Option String := none
  /-- The delimiters stand one level deeper than the header. -/
  indented : Bool := false
  /-- The lines from the header to the closing side belong to one definition. -/
  definesMacro : Bool := false
  deriving DecidableEq, Repr

/-- The keyword a header starts with: a number sign if there is one, and the letters, digits and
underscores that follow. -/
def leadingKeyword (header : String) : String :=
  match (trimStart header).toList with
  | '#' :: cs => .ofList ('#' :: cs.takeWhile isIdentChar)
  | cs => .ofList (cs.takeWhile isIdentChar)

def braces : Delimiters := { opening := some "\x7b", closing := some "\x7d" }

/-- What surrounds a block with this header, by its keyword and, failing that, by the equals sign it
ends in. -/
def inferFrom (header : String) : Delimiters :=
  let keyword := leadingKeyword header
  if keyword == "#define" then { definesMacro := true }
  else if ["#if", "#ifdef", "#ifndef", "#elif", "#else"].contains keyword then
    { closing := some "#endif" }
  else if ["assert", "static_assert", "_Static_assert"].contains keyword then
    { opening := some "(", closing := some ");" }
  else if ["struct", "union", "enum"].contains keyword then
    { opening := some "\x7b", closing := some "\x7d;" }
  else if keyword == "case" then { opening := some "\x7b", closing := some "\x7d break;" }
  else if (trimEnd header).toList.getLast? == some '=' then
    { opening := some "\x7b", closing := some "\x7d;", indented := true }
  else braces

/-- What surrounds a block; without a header, braces. -/
def infer : Option String → Delimiters
  | some header => inferFrom header
  | none => braces

/-- A scope to open. A delimiter given here replaces the inferred one, and the empty text leaves it
out. -/
structure Scope where
  header : Option String := none
  opening : Option String := none
  closing : Option String := none
  indented : Option Bool := none
  deriving DecidableEq, Repr

/-- A scope with a header and what follows from it. -/
def Scope.headed (header : String) : Scope := { header := some header }

/-- What is left to do when a scope is left. -/
structure ExitSide where
  closing : Option String
  indented : Bool
  definesMacro : Bool
  deriving DecidableEq, Repr

end Metagen.Emission
