/-! White space. A character is blank when the Unicode property White_Space holds of it, which is
twenty-five characters; ASCII classes are not used anywhere a text is trimmed or split. -/

namespace Metagen.Text

/-- Blank characters: tab to carriage return, space, next line, no-break space, and the wider
spaces and separators. -/
def isBlank (c : Char) : Bool :=
  let n := c.toNat
  (9 ≤ n && n ≤ 13) || n == 0x20 || n == 0x85 || n == 0xA0 || n == 0x1680
    || (0x2000 ≤ n && n ≤ 0x200A) || n == 0x2028 || n == 0x2029 || n == 0x202F
    || n == 0x205F || n == 0x3000

/-- Every character is blank; so it is for the empty text. -/
def isAllBlank (s : String) : Bool := s.toList.all isBlank

def trimStart (s : String) : String := .ofList (s.toList.dropWhile isBlank)

/-- The characters without those at the end that satisfy `p`. -/
def dropTrailing (p : Char → Bool) (cs : List Char) : List Char :=
  (cs.reverse.dropWhile p).reverse

def trimEnd (s : String) : String := .ofList (dropTrailing isBlank s.toList)

def trim (s : String) : String := trimEnd (trimStart s)

/-- The maximal runs of characters that are not blank, in order. -/
def words (s : String) : List String :=
  ((s.toList.splitOnP isBlank).filter (fun w => !w.isEmpty)).map .ofList

def leadingBlanks (s : String) : Nat := (s.toList.takeWhile isBlank).length

end Metagen.Text
