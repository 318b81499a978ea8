import Metagen.Eval.Operators
import Mathlib.Data.Int.Init

/-! Arithmetic of integers. An operator gives its exact result if that is a word, and fails
otherwise; only the remainder of the least word by minus one is refused although it is a word. -/

namespace Metagen.Eval

open Numeral Script

def arithmeticOps : List BinaryOp := [.add, .sub, .mul, .div, .mod]

theorem mem_arithmeticOps_iff {op : BinaryOp} :
    op ∈ arithmeticOps ↔ op = .add ∨ op = .sub ∨ op = .mul ∨ op = .div ∨ op = .mod := by
  simp [arithmeticOps]

/-- The exact results of operators on integers. A quotient is rounded towards zero, so that what is
left has the sign of the dividend; a remainder is never negative. -/
def Exact (op : BinaryOp) (x y z : Int) : Prop :=
  match op with
  | .add => z = x + y
  | .sub => z = x - y
  | .mul => z = x * y
  | .div => ∃ left, left + y * z = x ∧ left.natAbs < y.natAbs ∧ (0 ≤ x → 0 ≤ left) ∧
      (x ≤ 0 → left ≤ 0)
  | .mod => ∃ quotient, z + y * quotient = x ∧ z.natAbs < y.natAbs ∧ 0 ≤ z
  | _ => False

section

variable {x y z : Int}

/-- The exact quotient is the one that is cut off toward zero. -/
theorem exact_div_iff (hy : y ≠ 0) : Exact .div x y z ↔ z = x.tdiv y := by
  constructor
  · rintro ⟨left, hDivides, hSmall, hUp, hDown⟩
    rcases Int.le_total 0 x with hx | hx
    · have hUnique := (Int.tdiv_tmod_unique hx hy).2 ⟨hDivides, hUp hx, by omega⟩
      exact hUnique.1.symm
    · have hUnique := (Int.tdiv_tmod_unique' hx hy).2 ⟨hDivides, by omega, hDown hx⟩
      exact hUnique.1.symm
  · rintro rfl
    refine ⟨x.tmod y, Int.tmod_add_mul_tdiv x y, ?_, Int.tmod_nonneg y, fun hx => ?_⟩
    · rw [Int.natAbs_tmod]
      exact Nat.mod_lt _ (Int.natAbs_pos.2 hy)
    · have hNegated := Int.tmod_nonneg y (Int.neg_nonneg_of_nonpos hx)
      rw [Int.neg_tmod] at hNegated
      omega

/-- The exact remainder is the one that is never negative. -/
theorem exact_mod_iff (hy : y ≠ 0) : Exact .mod x y z ↔ z = x % y := by
  constructor
  · rintro ⟨quotient, hDivides, hSmall, hNonneg⟩
    rcases Int.lt_or_gt_of_ne hy with hNegative | hPositive
    · have hUnique := (Int.ediv_emod_unique' hNegative).2 ⟨hDivides, hNonneg, by omega⟩
      exact hUnique.2.symm
    · have hUnique := (Int.ediv_emod_unique hPositive).2 ⟨hDivides, hNonneg, by omega⟩
      exact hUnique.2.symm
  · rintro rfl
    have hNonneg := Int.emod_nonneg x hy
    have hLess := Int.emod_lt x hy
    exact ⟨x / y, Int.emod_add_mul_ediv x y, by omega, hNonneg⟩

/-- There is no result of a division by zero. -/
theorem not_exact_zero {op : BinaryOp} (hOp : op = .div ∨ op = .mod) : ¬ Exact op x 0 z := by
  rcases hOp with rfl | rfl
  · rintro ⟨left, -, hSmall, -⟩
    exact Nat.not_lt_zero _ hSmall
  · rintro ⟨quotient, -, hSmall, -⟩
    exact Nat.not_lt_zero _ hSmall

end

/-- The quotient of words is a word, unless the least word is divided by minus one. -/
theorem fits_tdiv_iff {x y : Int} (hLeast : Int64.minValue.toInt ≤ x)
    (hMost : x ≤ Int64.maxValue.toInt) (hy : y ≠ 0) :
    (Int64.minValue.toInt ≤ x.tdiv y ∧ x.tdiv y ≤ Int64.maxValue.toInt) ↔
      ¬ (x = Int64.minValue.toInt ∧ y = -1) := by
  rw [Int64.toInt_minValue, Int64.toInt_maxValue] at *
  have hAbs : (x.tdiv y).natAbs = x.natAbs / y.natAbs := Int.natAbs_tdiv x y
  by_cases hUnit : y.natAbs = 1
  · rcases Int.natAbs_eq_iff.1 hUnit with rfl | rfl
    · rw [Int.natCast_one, Int.tdiv_one]
      omega
    · rw [Int.natCast_one, Int.tdiv_neg, Int.tdiv_one]
      omega
  · have hHalf : x.natAbs / y.natAbs ≤ x.natAbs / 2 := Nat.div_le_div_left (by omega) (by decide)
    omega

section

variable {op : BinaryOp} {a b w : Int64} {n : Int}

theorem fitted_eq_ok_iff : fitted op n = .ok (.int w) ↔ w.toInt = n := by
  rw [← fitWord_eq_some_iff, fitted]
  cases fitWord n <;> simp

theorem fitted_total (op : BinaryOp) (n : Int) :
    (∃ w, fitted op n = .ok (.int w)) ∨ fitted op n = .error (.overflow op) := by
  unfold fitted
  cases fitWord n <;> simp

/-- The remainder is refused where the quotient is, and only there. -/
theorem intArithmetic_mod (hb : b ≠ 0) : intArithmetic .mod a b =
    if a = Int64.minValue ∧ b = -1 then .error (.overflow .mod)
    else fitted .mod (a.toInt % b.toInt) := by
  have hFits := fits_tdiv_iff a.minValue_le_toInt a.toInt_le (toInt_ne_zero hb)
  have hPair : (a = Int64.minValue ∧ b = -1) ↔ a.toInt = Int64.minValue.toInt ∧ b.toInt = -1 := by
    rw [← Int64.toInt_inj, ← Int64.toInt_inj]
    rfl
  rw [intArithmetic, if_neg hb, fitted, fitWord]
  by_cases hRefused : a = Int64.minValue ∧ b = -1
  · rw [if_pos hRefused, if_neg fun hInside => hFits.1 hInside (hPair.1 hRefused)]
    rfl
  · rw [if_neg hRefused, if_pos (hFits.2 fun hBoth => hRefused (hPair.2 hBoth))]
    rfl

theorem intArithmetic_zero (hOp : op = .div ∨ op = .mod) (a : Int64) :
    intArithmetic op a 0 = .error .divisionByZero := by
  rcases hOp with rfl | rfl <;> rfl

/-- Arithmetic on words yields the exact result, but for one remainder. -/
theorem intArithmetic_eq_ok_iff (hOp : op ∈ arithmeticOps) :
    intArithmetic op a b = .ok (.int w) ↔
      Exact op a.toInt b.toInt w.toInt ∧ ¬ (op = .mod ∧ a = Int64.minValue ∧ b = -1) := by
  by_cases hZero : (op = .div ∨ op = .mod) ∧ b = 0
  · obtain ⟨hOp, rfl⟩ := hZero
    rw [intArithmetic_zero hOp]
    exact iff_of_false (by simp) fun h => not_exact_zero hOp h.1
  · rcases mem_arithmeticOps_iff.1 hOp with rfl | rfl | rfl | rfl | rfl
    · simp [intArithmetic, fitted_eq_ok_iff, Exact]
    · simp [intArithmetic, fitted_eq_ok_iff, Exact]
    · simp [intArithmetic, fitted_eq_ok_iff, Exact]
    · have hb : b ≠ 0 := fun hb => hZero ⟨.inl rfl, hb⟩
      rw [intArithmetic, if_neg hb, fitted_eq_ok_iff, exact_div_iff (toInt_ne_zero hb)]
      simp
    · have hb : b ≠ 0 := fun hb => hZero ⟨.inr rfl, hb⟩
      rw [intArithmetic_mod hb, exact_mod_iff (toInt_ne_zero hb)]
      split
      next hRefused => exact iff_of_false (by simp) fun h => h.2 ⟨rfl, hRefused⟩
      next hAllowed =>
        rw [fitted_eq_ok_iff]
        exact ⟨fun h => ⟨h, fun hRefused => hAllowed hRefused.2⟩, fun h => h.1⟩

/-- Arithmetic on words yields a word or fails over a value. -/
theorem intArithmetic_total (hOp : op ∈ arithmeticOps) (a b : Int64) :
    (∃ w, intArithmetic op a b = .ok (.int w)) ∨
      ∃ fault, fault.kind = .value ∧ intArithmetic op a b = .error fault := by
  have hFitted (n : Int) : (∃ w, fitted op n = .ok (.int w)) ∨
      ∃ fault, fault.kind = .value ∧ fitted op n = .error fault :=
    (fitted_total op n).imp_right fun h => ⟨.overflow op, rfl, h⟩
  by_cases hZero : (op = .div ∨ op = .mod) ∧ b = 0
  · obtain ⟨hOp, rfl⟩ := hZero
    exact .inr ⟨.divisionByZero, rfl, intArithmetic_zero hOp a⟩
  · rcases mem_arithmeticOps_iff.1 hOp with rfl | rfl | rfl | rfl | rfl
    · exact hFitted _
    · exact hFitted _
    · exact hFitted _
    · rw [intArithmetic, if_neg fun hb => hZero ⟨.inl rfl, hb⟩]
      exact hFitted _
    · rw [intArithmetic_mod fun hb => hZero ⟨.inr rfl, hb⟩]
      split
      · exact .inr ⟨_, rfl, rfl⟩
      · exact hFitted _

theorem applyBinary_int (hOp : op ∈ arithmeticOps) (a b : Int64) :
    applyBinary op (.int a) (.int b) = Operation.ofExcept (intArithmetic op a b) := by
  rcases mem_arithmeticOps_iff.1 hOp with rfl | rfl | rfl | rfl | rfl <;> rfl

/-- An arithmetic operator on words yields just the exact result, if that is a word, and fails over
a value otherwise; only the remainder of the least word by minus one, whose quotient is not a word,
is refused as well. -/
theorem int_arithmetic (op : BinaryOp) (hOp : op ∈ arithmeticOps) (a b : Int64) (s : Store) :
    (∀ w : Int64, applyBinary op (.int a) (.int b) s = .ok (.int w) s ↔
      Exact op a.toInt b.toInt w.toInt ∧ ¬ (op = .mod ∧ a = Int64.minValue ∧ b = -1)) ∧
      ((∃ w : Int64, applyBinary op (.int a) (.int b) s = .ok (.int w) s) ∨
        ∃ fault, fault.kind = .value ∧ applyBinary op (.int a) (.int b) s = .error fault s) := by
  rw [applyBinary_int hOp]
  constructor
  · intro w
    rw [← intArithmetic_eq_ok_iff hOp]
    constructor
    · intro h
      cases hResult : intArithmetic op a b with
      | ok v =>
          rw [hResult] at h
          cases h
          rfl
      | error fault =>
          rw [hResult] at h
          cases h
    · intro h
      rw [h]
      rfl
  · rcases intArithmetic_total hOp a b with ⟨w, h⟩ | ⟨fault, hKind, h⟩
    · exact .inl ⟨w, by rw [h]; rfl⟩
    · exact .inr ⟨fault, hKind, by rw [h]; rfl⟩

/-- Minus seven by two, rounded towards zero. -/
theorem int_arithmetic_div :
    BinaryOp.div ∈ arithmeticOps ∧
      applyBinary .div (.int (-7)) (.int 2) {} = .ok (.int (-3)) {} := by
  have hOp : BinaryOp.div ∈ arithmeticOps := by decide
  have hExact : Exact .div (-7 : Int64).toInt (2 : Int64).toInt (-3 : Int64).toInt :=
    ⟨-1, by decide⟩
  exact ⟨hOp, ((int_arithmetic .div hOp (-7) 2 {}).1 (-3)).2 ⟨hExact, by decide⟩⟩

/-- The remainder of the least word by minus one is zero, and is refused. -/
theorem remainder_refused :
    Exact .mod Int64.minValue.toInt (-1 : Int64).toInt (0 : Int64).toInt ∧
      applyBinary .mod (.int Int64.minValue) (.int (-1)) {} = .error (.overflow .mod) {} :=
  ⟨⟨9223372036854775808, by decide⟩, rfl⟩

end

end Metagen.Eval
