/-! Sets and maps of characters given as sorted ranges of code points. -/

namespace Metagen.Text

/-- The entry whose interval from `first` to `last` holds `n`, sought at the places from `low` to
before `high`: a step looks at the middle entry and keeps the half on the side of `n`. The number of
entries is steps enough, since every step drops the middle one. -/
def entryAround? {α : Type} (first last : α → Nat) (entries : Array α) (n : Nat) :
    Nat → Nat → Nat → Option α
  | 0, _, _ => none
  | steps + 1, low, high =>
    if low < high then
      let middle := (low + high) / 2
      match entries[middle]? with
      | none => none
      | some entry =>
        if n < first entry then entryAround? first last entries n steps low middle
        else if last entry < n then entryAround? first last entries n steps (middle + 1) high
        else some entry
    else none

/-- The entry whose interval from `first` to `last` holds `n`, the intervals being sorted and
disjoint. -/
def entryAt? {α : Type} (first last : α → Nat) (entries : Array α) (n : Nat) : Option α :=
  entryAround? first last entries n entries.size 0 entries.size

/-- The code point lies in one of the sorted ranges, ends included. -/
def inRanges (ranges : Array (Nat × Nat)) (n : Nat) : Bool :=
  (entryAt? Prod.fst Prod.snd ranges n).isSome

/-- ASCII letters and decimal digits, and the underscore. -/
def isIdentChar (c : Char) : Bool := c.isAlphanum || c == '_'

def isIdentStart (c : Char) : Bool := c.isAlpha || c == '_'

/-- An ASCII letter or underscore followed by ASCII letters, digits and underscores. -/
def isIdentifier (s : String) : Bool :=
  match s.toList with
  | [] => false
  | c :: cs => isIdentStart c && cs.all isIdentChar

end Metagen.Text
