/-! Binary64 numbers as exact dyadic fractions. A finite number is taken apart into its mantissa and
its power of two, and a fraction of two naturals is rounded to the nearest number, ties to the even
mantissa. -/

namespace Metagen.Numeral

/-- A finite number: the mantissa times two to the exponent, with a sign that zero has too. -/
structure Dyadic where
  negative : Bool
  mantissa : Nat
  exponent : Int
  deriving DecidableEq, Repr

/-- What the bits of a number stand for. -/
inductive FloatClass where
  | nan
  | infinite (negative : Bool)
  | finite (value : Dyadic)
  deriving DecidableEq, Repr

/-- Take the bits apart: one sign bit, eleven bits of exponent, fifty-two of mantissa. -/
def classifyBits (bits : Nat) : FloatClass :=
  let negative := bits / Nat.pow 2 63 % 2 == 1
  let biased : Nat := bits / Nat.pow 2 52 % Nat.pow 2 11
  let fraction : Nat := bits % Nat.pow 2 52
  if biased == 2047 then
    if fraction == 0 then .infinite negative else .nan
  else if biased == 0 then .finite ⟨negative, fraction, -1074⟩
  else .finite ⟨negative, fraction + Nat.pow 2 52, (biased : Int) - 1075⟩

def classify (x : Float) : FloatClass := classifyBits x.toBits.toNat

/-- The quotient rounded to the nearest natural, a half to the even one. -/
def roundDiv (num den : Nat) : Nat :=
  let q := num / den
  let twice := 2 * (num % den)
  if den < twice || (twice == den && q % 2 == 1) then q + 1 else q

/-- A fraction divided by a power of two, again as a fraction. -/
def scaleFraction (num den : Nat) (exponent : Int) : Nat × Nat :=
  if exponent < 0 then (num * Nat.pow 2 exponent.natAbs, den)
  else (num, den * Nat.pow 2 exponent.natAbs)

/-- The exponent at which a positive fraction has a mantissa of fifty-three bits, or the least
exponent there is. -/
def fractionExponent (num den : Nat) : Int :=
  let guess : Int := (Nat.log2 num : Int) - Nat.log2 den - 53
  let (n, d) := scaleFraction num den guess
  max (-1074) (if Nat.pow 2 53 ≤ n / d then guess + 1 else guess)

/-- Bits of the number nearest to a fraction; infinity when it is too large. -/
def bitsOfFraction (num den : Nat) : Nat :=
  if num == 0 then 0
  else
    let exponent := fractionExponent num den
    let (n, d) := scaleFraction num den exponent
    let mantissa := roundDiv n d
    let bits :=
      if mantissa < Nat.pow 2 52 then mantissa
      else (exponent + 1075).toNat * Nat.pow 2 52 + (mantissa - Nat.pow 2 52)
    min bits (2047 * Nat.pow 2 52)

/-- The number with these bits and this sign. -/
def withSign (negative : Bool) (bits : Nat) : Float :=
  .ofBits (.ofNat (if negative then Nat.pow 2 63 + bits else bits))

def Dyadic.toFloat (d : Dyadic) : Float :=
  if d.exponent < 0 then
    withSign d.negative (bitsOfFraction d.mantissa (Nat.pow 2 d.exponent.natAbs))
  else withSign d.negative (bitsOfFraction (d.mantissa * Nat.pow 2 d.exponent.natAbs) 1)

def floatOfInt (n : Int) : Float := withSign (n < 0) (bitsOfFraction n.natAbs 1)

def Dyadic.truncAbs (d : Dyadic) : Nat :=
  if d.exponent < 0 then d.mantissa / Nat.pow 2 d.exponent.natAbs
  else d.mantissa * Nat.pow 2 d.exponent.natAbs

def Dyadic.isIntegral (d : Dyadic) : Bool :=
  0 ≤ d.exponent || d.mantissa % Nat.pow 2 d.exponent.natAbs == 0

def Dyadic.trunc (d : Dyadic) : Int := if d.negative then -d.truncAbs else d.truncAbs

/-- The nearest word to an integer. -/
def saturate (n : Int) : Int64 :=
  if n < Int64.minValue.toInt then Int64.minValue
  else if Int64.maxValue.toInt < n then Int64.maxValue
  else .ofInt n

/-- The integer itself, if it fits in a word. -/
def fitWord (n : Int) : Option Int64 :=
  if Int64.minValue.toInt ≤ n ∧ n ≤ Int64.maxValue.toInt then some (.ofInt n) else none

/-- An integer fits in a word exactly if there is a word for it, and then it is that word. -/
theorem fitWord_eq_some_iff {n : Int} {word : Int64} : fitWord n = some word ↔ word.toInt = n := by
  rw [fitWord]
  constructor
  · intro h
    split at h
    next hRange =>
      obtain rfl := Option.some.inj h
      exact Int64.toInt_ofInt_of_le hRange.1 (Int.lt_of_le_of_lt hRange.2 (by decide))
    next => cases h
  · rintro rfl
    rw [if_pos ⟨word.minValue_le_toInt, word.toInt_le⟩, Int64.ofInt_toInt]

theorem toInt_ne_zero {word : Int64} (h : word ≠ 0) : word.toInt ≠ 0 :=
  fun hZero => h (Int64.toInt_inj.1 hZero)

/-- The remainder of a division whose quotient is truncated; it has the dividend's sign. -/
def Dyadic.rem (a b : Dyadic) : Dyadic :=
  let exponent := min a.exponent b.exponent
  let m := a.mantissa * Nat.pow 2 (a.exponent - exponent).toNat
  let n := b.mantissa * Nat.pow 2 (b.exponent - exponent).toNat
  ⟨a.negative, m % n, exponent⟩

/-- The remainder of truncated division, for a divisor other than zero. -/
def floatRem (a b : Float) : Float :=
  match classify a, classify b with
  | .finite x, .finite y => (x.rem y).toFloat
  | .finite _, .infinite _ => a
  | _, _ => 0.0 / 0.0

/-- The remainder that is not negative, for a divisor other than zero. -/
def floatMod (a b : Float) : Float :=
  let r := floatRem a b
  if r < 0.0 then r + b.abs else r

end Metagen.Numeral
