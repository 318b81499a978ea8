import Metagen.Numeral.Binary64

/-! The shortest decimal text of a binary64 number: the fewest digits that read back as the same
number, and of those the nearest to it; always in positional notation. -/

namespace Metagen.Numeral

/-- A positive fraction compared with a decimal: `digits * 10 ^ exponent ≤ num / den`. -/
def decimalLe (digits : Nat) (exponent : Int) (num den : Nat) : Bool :=
  if exponent < 0 then digits * den ≤ num * Nat.pow 10 exponent.natAbs
  else digits * Nat.pow 10 exponent.natAbs * den ≤ num

/-- A positive fraction compared with a decimal: `num / den ≤ digits * 10 ^ exponent`. -/
def leDecimal (num den digits : Nat) (exponent : Int) : Bool :=
  if exponent < 0 then num * Nat.pow 10 exponent.natAbs ≤ digits * den
  else num ≤ digits * Nat.pow 10 exponent.natAbs * den

/-- The whole multiples of a power of ten in a fraction. -/
def decimalFloor (num den : Nat) (exponent : Int) : Nat :=
  if exponent < 0 then num * Nat.pow 10 exponent.natAbs / den
  else num / (den * Nat.pow 10 exponent.natAbs)

/-- The greatest exponent whose power of ten is at most the positive fraction. -/
def decimalExponent (num den : Nat) : Int :=
  let estimate := ((Nat.log2 num : Int) - Nat.log2 den) * 30103 / 100000 - 2
  (List.range 6).foldl
    (fun (best : Int) (i : Nat) =>
      if decimalLe 1 (estimate + i) num den then estimate + i else best)
    estimate

/-- The fractions that read back as one number: everything between two bounds, which belong to it
or not. -/
structure ReadingInterval where
  low : Nat
  high : Nat
  den : Nat
  closed : Bool

/-- The interval of a positive number, in quarters of its last place. Just above a power of two the
places below are half as wide. -/
def readingInterval (mantissa : Nat) (exponent : Int) : ReadingInterval :=
  let below := if mantissa == Nat.pow 2 52 then 1 else 2
  let unit := if exponent < 2 then 1 else Nat.pow 2 (exponent - 2).toNat
  let den := if exponent < 2 then Nat.pow 2 (2 - exponent).toNat else 1
  ⟨(4 * mantissa - below) * unit, (4 * mantissa + 2) * unit, den, mantissa % 2 == 0⟩

def ReadingInterval.contains (r : ReadingInterval) (digits : Nat) (exponent : Int) : Bool :=
  if r.closed then leDecimal r.low r.den digits exponent && decimalLe digits exponent r.high r.den
  else !decimalLe digits exponent r.low r.den && !leDecimal r.high r.den digits exponent

/-- The decimal with places down to the exponent that reads back and is nearer to the number, the
upper one when both are equally near. -/
def nearestOnGrid (r : ReadingInterval) (num den : Nat) (exponent : Int) : Option Nat :=
  let down := decimalFloor num den exponent
  match r.contains down exponent, r.contains (down + 1) exponent with
  | true, true =>
    if decimalLe (2 * down + 1) exponent (2 * num) den then some (down + 1) else some down
  | true, false => some down
  | false, true => some (down + 1)
  | false, false => none

/-- Remove zeros at the end of the digits; a zero is not stripped. -/
def stripZeros : Nat → Nat → Int → Nat × Int
  | 0, digits, exponent => (digits, exponent)
  | fuel + 1, digits, exponent =>
    if digits % 10 == 0 then stripZeros fuel (digits / 10) (exponent + 1) else (digits, exponent)

/-- Digits and exponent of the shortest decimal of a positive number; at most seventeen digits are
ever needed. -/
def shortestDecimal (mantissa : Nat) (exponent : Int) : Nat × Int :=
  let num := if exponent < 0 then mantissa else mantissa * Nat.pow 2 exponent.toNat
  let den := if exponent < 0 then Nat.pow 2 exponent.natAbs else 1
  let r := readingInterval mantissa exponent
  let top := decimalExponent num den
  let found := (List.range 17).findSome? fun (i : Nat) =>
    (nearestOnGrid r num den (top - i)).map fun digits => (digits, top - (i : Int))
  let (digits, place) := found.getD (decimalFloor num den (top - 16), top - 16)
  stripZeros 17 digits place

/-- A decimal written out, without an exponent and without a point if it is whole. -/
def positional (digits : Nat) (exponent : Int) : String :=
  let ds := Nat.toDigits 10 digits
  if 0 ≤ exponent then .ofList (ds ++ List.replicate exponent.toNat '0')
  else
    let places := exponent.natAbs
    if places < ds.length then
      .ofList (ds.take (ds.length - places) ++ '.' :: ds.drop (ds.length - places))
    else .ofList ('0' :: '.' :: List.replicate (places - ds.length) '0' ++ ds)

def signed (negative : Bool) (text : String) : String := if negative then "-" ++ text else text

/-- The shortest text of a number; a whole number has no point, and zero keeps its sign. -/
def floatText (x : Float) : String :=
  match classify x with
  | .nan => "NaN"
  | .infinite negative => signed negative "inf"
  | .finite d =>
    if d.mantissa == 0 then signed d.negative "0"
    else
      let (digits, exponent) := shortestDecimal d.mantissa d.exponent
      signed d.negative (positional digits exponent)

/-- The text of a number that always shows a point: an integer is written out exactly with one
place, and all else as short as possible. -/
def floatTextWithPoint (x : Float) : String :=
  match classify x with
  | .finite d =>
    if d.isIntegral then signed d.negative (toString d.truncAbs ++ ".0") else floatText x
  | _ => floatText x

end Metagen.Numeral
