import Metagen.Proofs.Eval.Parameters
import Mathlib.Tactic.Ring
import Mathlib.Tactic.Positivity

/-! Ranges. The numbers in a range are those that are reached from its start in whole steps and come
before its end, up to the ends of the words. -/

namespace Metagen.Eval

open Numeral

/-- A number comes before the end of a range, which is above if the steps go up, and below if they
go down. -/
def Before (stop step x : Int) : Prop := if 0 < step then x < stop else stop < x

instance (stop step x : Int) : Decidable (Before stop step x) :=
  inferInstanceAs (Decidable (if 0 < step then x < stop else stop < x))

/-- The numbers `start`, `start + step`, `start + 2 * step` and so on, as long as they come before
the end. -/
structure Terms (start stop step : Int) (terms : List Int64) : Prop where
  place : ∀ (k : Nat) (n : Int64), terms[k]? = some n → n.toInt = start + k * step
  complete : ∀ k : Nat, k < terms.length ↔ Before stop step (start + k * step)

section

variable {start stop step x : Int}

/-- What does not come before the end does not come before it later. -/
theorem not_before_add (h : ¬ Before stop step x) (k : Nat) :
    ¬ Before stop step (x + k * step) := by
  unfold Before at h ⊢
  split at h
  next hUp =>
    have hMore : 0 ≤ (k : Int) * step := by positivity
    rw [if_pos hUp]
    omega
  next hDown =>
    have hLess : (k : Int) * step ≤ 0 := Int.mul_nonpos_of_nonneg_of_nonpos (by omega) (by omega)
    rw [if_neg hDown]
    omega

theorem terms_nil (h : ¬ Before stop step start) : Terms start stop step [] where
  place := by simp
  complete := fun k => by simpa using not_before_add h k

/-- There is one list of terms between two bounds for each step. -/
theorem Terms.unique {terms terms' : List Int64} (h : Terms start stop step terms)
    (h' : Terms start stop step terms') : terms = terms' := by
  have hLength (k : Nat) : k < terms.length ↔ k < terms'.length := by rw [h.complete, h'.complete]
  apply List.ext_getElem? fun k => ?_
  by_cases hk : k < terms.length
  · have hk' := (hLength k).1 hk
    rw [List.getElem?_eq_getElem hk, List.getElem?_eq_getElem hk', Option.some_inj,
      ← Int64.toInt_inj, h.place k _ (List.getElem?_eq_getElem hk),
      h'.place k _ (List.getElem?_eq_getElem hk')]
  · have hk' := (hLength k).not.1 hk
    rw [List.getElem?_eq_none (Nat.le_of_not_lt hk), List.getElem?_eq_none (Nat.le_of_not_lt hk')]

/-- A number before the end, and the terms after it. -/
theorem Terms.cons {first : Int64} {terms : List Int64} (h : Before stop step first.toInt)
    (hTerms : Terms (first.toInt + step) stop step terms) :
    Terms first.toInt stop step (first :: terms) := by
  have hLater (k : Nat) : first.toInt + (k + 1 : Nat) * step = first.toInt + step + k * step := by
    push_cast
    ring
  constructor
  · intro k n hk
    cases k with
    | zero =>
        obtain rfl : first = n := by simpa using hk
        simp
    | succ k => rw [hLater, hTerms.place k n (by simpa using hk)]
  · intro k
    cases k with
    | zero => simpa using h
    | succ k => rw [hLater, ← hTerms.complete k, List.length_cons, Nat.succ_lt_succ_iff]

/-- No term comes twice, as each step goes in the same direction. -/
theorem Terms.nodup {terms : List Int64} (h : Terms start stop step terms) (hStep : step ≠ 0) :
    terms.Nodup := by
  rw [List.nodup_iff_getElem?_ne_getElem?]
  intro i j hLess hj hSame
  obtain ⟨n, hn⟩ : ∃ n, terms[j]? = some n := ⟨_, List.getElem?_eq_getElem hj⟩
  have hi := h.place i n (hSame.trans hn)
  rw [h.place j n hn, Int.add_right_inj] at hi
  have hPlaces := Int.eq_of_mul_eq_mul_right hStep hi
  omega

end

section

variable {stop step i : Int64}

/-- The test of a range is the one on integers: which side of the stop counts depends on the sign of
the step. -/
theorem beforeStop_iff (hStep : step ≠ 0) :
    beforeStop stop step i = true ↔ Before stop.toInt step.toInt i.toInt := by
  have hNonzero := toInt_ne_zero hStep
  simp only [beforeStop, Bool.or_eq_true, Bool.and_eq_true, decide_eq_true_iff,
    Int64.lt_iff_toInt_lt, Int64.toInt_zero, Before]
  split <;> omega

/-- Where a step leaves the words, it has passed the end. -/
theorem not_before_of_fitWord_eq_none (hStep : step ≠ 0)
    (hNone : fitWord (i.toInt + step.toInt) = none) :
    ¬ Before stop.toInt step.toInt (i.toInt + step.toInt) := by
  have hNonzero := toInt_ne_zero hStep
  have hOutside : ¬ (Int64.minValue.toInt ≤ i.toInt + step.toInt ∧
      i.toInt + step.toInt ≤ Int64.maxValue.toInt) := by
    intro hInside
    rw [fitWord, if_pos hInside] at hNone
    cases hNone
  have hLeast := i.minValue_le_toInt
  have hMost := i.toInt_le
  have hStopLeast := stop.minValue_le_toInt
  have hStopMost := stop.toInt_le
  unfold Before
  split <;> omega

/-- The loop puts the terms from its number on behind the items. -/
theorem exists_terms (hStep : step ≠ 0) (stop i : Int64) (items : Array Value) :
    ∃ terms, Terms i.toInt stop.toInt step.toInt terms ∧
      rangeFrom stop step i items = items ++ (terms.map Value.int).toArray := by
  fun_induction rangeFrom stop step i items with
  | case1 i items hBefore next hNext ih =>
      obtain ⟨terms, hTerms, hItems⟩ := ih
      rw [fitWord_eq_some_iff.1 hNext] at hTerms
      refine ⟨i :: terms, hTerms.cons ((beforeStop_iff hStep).1 hBefore), ?_⟩
      rw [hItems]
      simp
  | case2 i items hBefore hNone =>
      refine ⟨[i], ?_, by simp⟩
      apply Terms.cons ((beforeStop_iff hStep).1 hBefore)
      exact terms_nil (not_before_of_fitWord_eq_none hStep hNone)
  | case3 i items hNot =>
      exact ⟨[], terms_nil ((beforeStop_iff hStep).not.1 hNot), by simp⟩

end

namespace Args

/-- The arguments are these values for these parameters, each with its name or in its turn. -/
structure CarriesValues (a : Args) (values : List (String × Value)) : Prop where
  fit : a.Fit (entryNames values)
  gives : ∃ value, a.Gives (entryNames values) value ∧ ∀ entry ∈ values, value entry.1 = entry.2

variable {a left : Args} {name : String} {v : Value} {values : List (String × Value)}

/-- A parameter takes its own value, and leaves those of the others. -/
theorem CarriesValues.take (h : a.CarriesValues ((name, v) :: values))
    (hNew : name ∉ entryNames values) :
    ∃ left, a.take name = some (v, left) ∧ left.CarriesValues values := by
  obtain ⟨value, hGives, hValues⟩ := h.gives
  rcases a.take_cases name with ⟨w, left, hTake, hTakes⟩ | ⟨-, hUnnamed, hNone⟩
  · obtain ⟨hSame, hLeft⟩ := hTakes.of_gives hNew hGives
    obtain rfl : v = w := (hValues (name, v) List.mem_cons_self).symm.trans hSame
    refine ⟨left, hTake, (hTakes.fit_iff hNew).1 h.fit, value, hLeft, fun entry hEntry => ?_⟩
    exact hValues entry (List.mem_cons_of_mem _ hEntry)
  · exact absurd h.fit (not_fit_cons hUnnamed hNone)

/-- Nothing is left for a further parameter. -/
theorem CarriesValues.take_eq_none (h : a.CarriesValues []) (name : String) :
    a.take name = none := by
  rcases a.take_cases name with ⟨v, left, -, hTakes⟩ | ⟨hNone, -, -⟩
  · cases hTakes with
    | named hGet => cases h.fit.named name ((a.named.exists_get?_iff name).1 ⟨v, hGet⟩)
    | positional hUnnamed hPositional =>
        have hLength := h.fit.positional
        rw [hPositional] at hLength
        cases hLength
  · exact hNone

theorem CarriesValues.leftOver?_eq_none (h : a.CarriesValues []) : a.leftOver? = none :=
  (a.fit_nil_iff).1 h.fit

end Args

namespace Native

/-- From these arguments and this store on, the action gives a result, and leaves other arguments
and another store. -/
def GivesResult {α : Type} (action : Native α) (a : Args) (s : Store) (x : α) (a' : Args)
    (s' : Store) :
    Prop := action a s = .ok (x, a') s'

namespace GivesResult

variable {α β : Type} {a a' b : Args} {s s' t : Store} {x : α} {y : β} {name : String} {v : Value}

theorem pure (x : α) (a : Args) (s : Store) : (Pure.pure x : Native α).GivesResult a s x a s := rfl

theorem bind {first : Native α} {second : α → Native β} (hFirst : first.GivesResult a s x a' s')
    (hSecond : (second x).GivesResult a' s' y b t) : (first >>= second).GivesResult a s y b t := by
  have hBind : (first >>= second) a s = EStateM.bind (first a) (fun r => second r.1 r.2) s := rfl
  rw [GivesResult, hBind, EStateM.bind, hFirst]
  exact hSecond

theorem required (h : a.take name = some (v, a')) (s : Store) :
    (required name).GivesResult a s v a' s := by
  rw [GivesResult, Native.required, h]

theorem optional_some (h : a.take name = some (v, a')) (s : Store) :
    (optional name).GivesResult a s (some v) a' s := by
  rw [GivesResult, Native.optional, h]

theorem optional_none (h : a.take name = none) (s : Store) :
    (optional name).GivesResult a s none a s := by
  rw [GivesResult, Native.optional, h]

theorem finish (h : a.leftOver? = none) (s : Store) : finish.GivesResult a s () a s := by
  rw [GivesResult, Native.finish, h]

end GivesResult

variable {a a₁ a₂ a₃ : Args} {s : Store} {first start stop step : Int64}

/-- A range with or without an end and a step: the first argument is the end if no other is given,
and the step is one. -/
theorem range_givesResult (hFirst : a.take "start" = some (.int first, a₁))
    (hStop : a₁.take "stop" = some (.int stop, a₂) ∧ start = first ∨
      a₁.take "stop" = none ∧ a₂ = a₁ ∧ start = 0 ∧ stop = first)
    (hStep : a₂.take "step" = some (.int step, a₃) ∨
      a₂.take "step" = none ∧ a₃ = a₂ ∧ step = 1)
    (hNonzero : step ≠ 0) :
    range.GivesResult a s (s.newList (rangeFrom stop step start #[])).1 a₃
      (s.newList (rangeFrom stop step start #[])).2 := by
  unfold range
  refine .bind (.required hFirst s) (.bind (.pure first a₁ s) ?_)
  refine .bind (?_ : GivesResult _ a₁ s (start, stop) a₂ s) ?_
  · rcases hStop with ⟨hStop, rfl⟩ | ⟨hStop, rfl, rfl, rfl⟩
    · exact .bind (.optional_some hStop s) rfl
    · exact .bind (.optional_none hStop s) rfl
  refine .bind (?_ : GivesResult _ a₂ s step a₃ s) ?_
  · rcases hStep with hStep | ⟨hStep, rfl, rfl⟩
    · exact .bind (.optional_some hStep s) rfl
    · exact .bind (.optional_none hStep s) rfl
  · rw [if_neg (by simpa using hNonzero)]
    rfl

theorem call_givesResult {b : Builtin} {v : Value} {t : Store}
    (h : (apply b).GivesResult a s v a₁ t)
    (hLeft : a₁.leftOver? = none) : (call b).GivesResult a s v a₁ t :=
  h.bind (.bind (.finish hLeft t) (.pure v a₁ t))

end Native

/-- A call makes a new list of integers, and changes nothing else. -/
def MakesList (b : Builtin) (a : Args) (s : Store) (terms : List Int64) : Prop :=
  ∃ left, Native.call b a s =
    .ok ((s.newList (terms.map Value.int).toArray).1, left)
      (s.newList (terms.map Value.int).toArray).2

/-- A builtin function that gives a list with these items makes the list that has these terms. -/
theorem MakesList.of_givesResult {b : Builtin} {a left : Args} {s : Store} {items : Array Value}
    {terms : List Int64} (hItems : items = (terms.map Value.int).toArray)
    (h : (Native.apply b).GivesResult a s (s.newList items).1 left (s.newList items).2)
    (hLeft : left.leftOver? = none) : MakesList b a s terms := by
  subst hItems
  exact ⟨left, Native.call_givesResult h hLeft⟩

/-- The range from `start` to `stop` in steps of `step` is a list of just the numbers that are
reached from `start` in whole steps and come before `stop`, in order and without repetition. Without
a step, the numbers go up by one, and with one bound alone, they start at zero. -/
theorem range_terms (start stop step : Int64) (hStep : step ≠ 0) :
    ∃ terms, Terms start.toInt stop.toInt step.toInt terms ∧ terms.Nodup ∧
      (∀ a s, a.CarriesValues [("start", .int start), ("stop", .int stop), ("step", .int step)] →
        MakesList .range a s terms) ∧
      (step = 1 → ∀ a s, a.CarriesValues [("start", .int start), ("stop", .int stop)] →
        MakesList .range a s terms) ∧
      (start = 0 → step = 1 → ∀ a s, a.CarriesValues [("start", .int stop)] →
        MakesList .range a s terms) := by
  obtain ⟨terms, hTerms, hItems⟩ := exists_terms hStep stop start #[]
  rw [Array.empty_append] at hItems
  refine ⟨terms, hTerms, hTerms.nodup (toInt_ne_zero hStep), fun a s h => ?_, ?_, ?_⟩
  · obtain ⟨a₁, hFirst, h⟩ := h.take (by simp [entryNames])
    obtain ⟨a₂, hStop, h⟩ := h.take (by simp [entryNames])
    obtain ⟨a₃, hStepArg, h⟩ := h.take (by simp [entryNames])
    have hRange := Native.range_givesResult (s := s) hFirst (.inl ⟨hStop, rfl⟩)
      (.inl hStepArg) hStep
    exact .of_givesResult hItems hRange h.leftOver?_eq_none
  · rintro rfl a s h
    obtain ⟨a₁, hFirst, h⟩ := h.take (by simp [entryNames])
    obtain ⟨a₂, hStop, h⟩ := h.take (by simp [entryNames])
    have hRange := Native.range_givesResult (s := s) hFirst (.inl ⟨hStop, rfl⟩)
      (.inr ⟨h.take_eq_none _, rfl, rfl⟩) hStep
    exact .of_givesResult hItems hRange h.leftOver?_eq_none
  · rintro rfl rfl a s h
    obtain ⟨a₁, hFirst, h⟩ := h.take (by simp [entryNames])
    have hRange := Native.range_givesResult (s := s) hFirst (.inr ⟨h.take_eq_none _, rfl, rfl, rfl⟩)
      (.inr ⟨h.take_eq_none _, rfl, rfl⟩) hStep
    exact .of_givesResult hItems hRange h.leftOver?_eq_none

/-- A range that begins one before the greatest word and ends there, in steps of two; the end is
named, and the other arguments are not. -/
def lastWords : Args where
  callee := "range"
  positional := [.int 9223372036854775806, .int 2]
  named := .ofList [("stop", .int 9223372036854775807)]

/-- The next term would leave the words. -/
theorem range_terms_lastWords :
    (2 : Int64) ≠ 0 ∧
      lastWords.CarriesValues
        [("start", .int 9223372036854775806), ("stop", .int 9223372036854775807),
        ("step", .int 2)] ∧
      MakesList .range lastWords {} [9223372036854775806] := by
  have hPasses : lastWords.CarriesValues [("start", .int 9223372036854775806),
      ("stop", .int 9223372036854775807), ("step", .int 2)] := by
    refine ⟨⟨?_, ?_⟩, fun name => if name = "start" then .int 9223372036854775806
      else if name = "stop" then .int 9223372036854775807 else .int 2, ⟨?_, ?_⟩, ?_⟩
    · decide +kernel
    · decide +kernel
    · intro name v hNamed
      have hEntry : (name, v) ∈ [("stop", Value.int 9223372036854775807)] :=
        Bindings.mem_entries_of_get? hNamed
      obtain ⟨rfl, rfl⟩ := Prod.mk.inj (List.mem_singleton.1 hEntry)
      rfl
    · rfl
    · simp
  have hTerms : Terms (9223372036854775806 : Int64).toInt (9223372036854775807 : Int64).toInt
      (2 : Int64).toInt [9223372036854775806] :=
    (terms_nil (by decide)).cons (by decide)
  obtain ⟨terms, hOther, -, hMakes, -⟩ :=
    range_terms 9223372036854775806 9223372036854775807 2 (by decide)
  rw [hOther.unique hTerms] at hMakes
  exact ⟨by decide, hPasses, hMakes lastWords {} hPasses⟩

end Metagen.Eval
