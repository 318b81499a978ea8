import Metagen.Numeral.Binary64

/-! Reading numbers from text. Integers have an optional sign and digits of a base; decimals have an
optional sign, digits with an optional point, and an optional exponent, or are one of the words for
infinity and not-a-number. Nothing else may surround them. -/

namespace Metagen.Numeral

/-- The value of a digit in bases up to thirty-six, letters of both cases counting from ten. -/
def digitValue (c : Char) : Option Nat :=
  if c.isDigit then some (c.toNat - '0'.toNat)
  else if 'a' ≤ c ∧ c ≤ 'z' then some (c.toNat - 'a'.toNat + 10)
  else if 'A' ≤ c ∧ c ≤ 'Z' then some (c.toNat - 'A'.toNat + 10)
  else none

/-- The natural with these digits, after `value`; `none` for a character that is no digit. -/
def naturalFrom (base value : Nat) : List Char → Option Nat
  | [] => some value
  | c :: cs =>
    match digitValue c with
    | some d => if d < base then naturalFrom base (base * value + d) cs else none
    | none => none

/-- The natural with these digits, of which there is at least one. -/
def natural (base : Nat) : List Char → Option Nat
  | [] => none
  | cs => naturalFrom base 0 cs

/-- The sign in front, and what follows it. -/
def takeSign : List Char → Bool × List Char
  | '-' :: cs => (true, cs)
  | '+' :: cs => (false, cs)
  | cs => (false, cs)

/-- The word that a text of digits with an optional sign stands for. -/
def readWord (base : Nat) (cs : List Char) : Option Int64 :=
  let (negative, digits) := takeSign cs
  (natural base digits).bind fun n => fitWord (if negative then -(n : Int) else n)

/-- The number nearest to `digits * 10 ^ exponent`. `count` is how many digits there are, leading
zeros included: numbers far outside the range are settled without computing the power. -/
def floatOfDecimal (negative : Bool) (digits count : Nat) (exponent : Int) : Float :=
  if digits == 0 then withSign negative 0
  else if exponent < -400 - (count : Int) then withSign negative 0
  else if 400 < exponent then withSign negative (2047 * Nat.pow 2 52)
  else if exponent < 0 then withSign negative (bitsOfFraction digits (Nat.pow 10 exponent.natAbs))
  else withSign negative (bitsOfFraction (digits * Nat.pow 10 exponent.natAbs) 1)

def readExponent : List Char → Option Int
  | [] => some 0
  | c :: cs =>
    if c == 'e' || c == 'E' then
      let (negative, digits) := takeSign cs
      (natural 10 digits).map fun n => if negative then -(n : Int) else n
    else none

/-- A number of digits with an optional point and an optional exponent. -/
def readDecimal (negative : Bool) (cs : List Char) : Option Float :=
  let whole := cs.takeWhile Char.isDigit
  let afterWhole := cs.dropWhile Char.isDigit
  let (fraction, rest) := match afterWhole with
    | '.' :: more => (more.takeWhile Char.isDigit, more.dropWhile Char.isDigit)
    | _ => ([], afterWhole)
  let digits := whole ++ fraction
  match natural 10 digits, readExponent rest with
  | some n, some exponent =>
    some (floatOfDecimal negative n digits.length (exponent - fraction.length))
  | _, _ => none

/-- The number a text stands for: a decimal, or `inf`, `infinity` or `nan` in any case. -/
def readFloat (cs : List Char) : Option Float :=
  let (negative, body) := takeSign cs
  let word := String.ofList (body.map Char.toLower)
  if word == "inf" || word == "infinity" then some (withSign negative (2047 * Nat.pow 2 52))
  else if word == "nan" then some (0.0 / 0.0)
  else readDecimal negative body

end Metagen.Numeral
