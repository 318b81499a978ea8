import Metagen.Text.CaseTable
import Metagen.Text.Ranges

/-! Upper and lower case of texts, by the full case mappings of Unicode without any language's own
rules. A capital sigma becomes the final small sigma at the end of a word. -/

namespace Metagen.Text

/-- Where a code point moves, if it lies on one of the runs. -/
def shifted (runs : Array (Nat × Nat × Nat × Int)) (n : Nat) : Option Nat :=
  match entryAt? (·.1) (·.2.1) runs n with
  | some (first, _, stride, distance) =>
    if (n - first) % stride == 0 then some (n + distance).toNat else none
  | none => none

/-- A case mapping: the expansions first, then the runs, and all else stays. -/
def mapCase (expansions : Array (Nat × List Nat)) (runs : Array (Nat × Nat × Nat × Int))
    (c : Char) : List Char :=
  match entryAt? Prod.fst Prod.fst expansions c.toNat with
  | some (_, several) => several.map Char.ofNat
  | none => match shifted runs c.toNat with
    | some n => [Char.ofNat n]
    | none => [c]

def upperChar (c : Char) : List Char :=
  if c.toNat < 128 then [c.toUpper] else mapCase upperExpansions upperRuns c

/-- Lower case of one character on its own. -/
def lowerChar (c : Char) : List Char :=
  if c.toNat < 128 then [c.toLower] else mapCase lowerExpansions lowerRuns c

def toUpper (s : String) : String := .ofList (s.toList.flatMap upperChar)

/-- Characters with an upper, lower or title case. -/
def isCased (c : Char) : Bool :=
  if c.toNat < 128 then c.isAlpha else inRanges casedRanges c.toNat

/-- Characters that a word's case passes over, such as apostrophes and combining marks. -/
def isCaseIgnorable (c : Char) : Bool := inRanges caseIgnorableRanges c.toNat

/-- The first character that case does not pass over is cased. -/
def meetsCased (cs : List Char) : Bool :=
  match cs.dropWhile isCaseIgnorable with
  | c :: _ => isCased c
  | [] => false

/-- Lower case of the characters after `before`, which is in reverse; `done` is the result so far,
in reverse. -/
def lowerFrom (before done : List Char) : List Char → List Char
  | [] => done.reverse
  | c :: cs =>
    let mapped :=
      if c == 'Σ' then (if meetsCased before && !meetsCased cs then ['ς'] else ['σ'])
      else lowerChar c
    lowerFrom (c :: before) (mapped.reverse ++ done) cs

def toLower (s : String) : String := .ofList (lowerFrom [] [] s.toList)

end Metagen.Text
