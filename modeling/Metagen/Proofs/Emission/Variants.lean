import Metagen.Proofs.Emission.Ownership

/-! The names of overloads. A name joins the macro and the values with double underscores, and tells
them apart if no double underscore can begin inside of one of them; the last value may be anything,
since nothing follows it. -/

namespace Metagen.Emission

open Emitter

/-- No double underscore begins in the part, even if an underscore follows. -/
def Clear (part : String) : Prop := ¬ ['_', '_'] <:+: part.toList ++ ['_']

instance (part : String) : Decidable (Clear part) := inferInstanceAs (Decidable (¬ _))

/-- Where a separator begins, a clear part ends. -/
theorem eq_nil_of_clear (part : List Char) {more rest rest' : List Char}
    (hClear : ¬ ['_', '_'] <:+: (part ++ more) ++ ['_'])
    (h : '_' :: '_' :: rest = more ++ '_' :: '_' :: rest') : more = [] := by
  cases more with
  | nil => rfl
  | cons c more =>
      obtain ⟨rfl, hRest⟩ := List.cons.inj h
      exfalso
      apply hClear
      cases more with
      | nil => exact ⟨part, [], by simp⟩
      | cons c more =>
          obtain ⟨rfl, -⟩ := List.cons.inj hRest
          exact ⟨part, more ++ ['_'], by simp⟩

/-- Clear parts with a separator behind them are read back. -/
theorem Clear.append_inj {part part' : String} (h : Clear part) (h' : Clear part')
    {rest rest' : List Char}
    (hSame : part.toList ++ '_' :: '_' :: rest = part'.toList ++ '_' :: '_' :: rest') :
    part = part' ∧ rest = rest' := by
  rcases List.append_eq_append_iff.1 hSame with ⟨more, hPart, hRest⟩ | ⟨more, hPart, hRest⟩
  · obtain rfl := eq_nil_of_clear part.toList (by rwa [Clear, hPart] at h') hRest
    rw [List.append_nil] at hPart
    simp_all [String.toList_inj]
  · obtain rfl := eq_nil_of_clear part'.toList (by rwa [Clear, hPart] at h) hRest
    rw [List.append_nil] at hPart
    simp_all [String.toList_inj]

theorem toList_intercalate_cons_cons (part next : String) (rest : List String) :
    ("__".intercalate (part :: next :: rest)).toList =
      part.toList ++ '_' :: '_' :: ("__".intercalate (next :: rest)).toList := by
  simp [String.intercalate_cons_cons]

/-- Lists of parts are read back, if there are as many on both sides and all but the last are
clear. -/
theorem intercalate_inj {parts parts' : List String} (hLength : parts.length = parts'.length)
    (hClear : ∀ part ∈ parts.dropLast ++ parts'.dropLast, Clear part)
    (h : "__".intercalate parts = "__".intercalate parts') : parts = parts' := by
  induction parts generalizing parts' with
  | nil => exact (List.length_eq_zero_iff.1 hLength.symm).symm
  | cons part rest ih =>
      obtain ⟨part', rest', rfl⟩ := List.exists_cons_of_length_eq_add_one hLength.symm
      simp only [List.length_cons, Nat.add_right_cancel_iff] at hLength
      cases rest with
      | nil =>
          obtain rfl := List.length_eq_zero_iff.1 hLength.symm
          simpa using h
      | cons next rest =>
          obtain ⟨next', rest', rfl⟩ := List.exists_cons_of_length_eq_add_one hLength.symm
          have hChars := congrArg String.toList h
          rw [toList_intercalate_cons_cons, toList_intercalate_cons_cons] at hChars
          obtain ⟨rfl, hRest⟩ := (hClear part (by simp)).append_inj (hClear part' (by simp)) hChars
          have hLater : ∀ other ∈ (next :: rest).dropLast ++ (next' :: rest').dropLast,
              Clear other := by
            intro other hOther
            rcases List.mem_append.1 hOther with hLeft | hRight
            · exact hClear other (List.mem_append_left _ (.tail _ hLeft))
            · exact hClear other (List.mem_append_right _ (.tail _ hRight))
          rw [ih hLength hLater (String.toList_inj.1 hRest)]

theorem toList_variantName (name : String) (values : List String) :
    (variantName name values).toList = overloadPrefix.toList ++
      (name.toList ++ '_' :: '_' :: ("__".intercalate values).toList) := by
  simp [variantName]

/-- Overloads of macros with clear names have names of their own, whatever their values are. -/
theorem variantName_ne_of_name {name name' : String} (h : Clear name) (h' : Clear name')
    (hNames : name ≠ name') (values values' : List String) :
    variantName name values ≠ variantName name' values' := by
  intro hSame
  have hChars := congrArg String.toList hSame
  rw [toList_variantName, toList_variantName, List.append_cancel_left_eq] at hChars
  exact hNames (h.append_inj h' hChars).1

/-- Overloads of one macro have names of their own, if their values are clear up to the last. -/
theorem variantName_ne_of_values {name : String} {values values' : List String}
    (hLength : values.length = values'.length)
    (hClear : ∀ value ∈ values.dropLast ++ values'.dropLast, Clear value)
    (hValues : values ≠ values') : variantName name values ≠ variantName name values' := by
  intro hSame
  have hChars := congrArg String.toList hSame
  rw [toList_variantName, toList_variantName, List.append_cancel_left_eq,
    List.append_cancel_left_eq, List.cons.injEq, List.cons.injEq] at hChars
  exact hValues (intercalate_inj hLength hClear (String.toList_inj.1 hChars.2.2))

/-- Different overloads of a directive are defined under different names, unless a double underscore
may begin inside of the name of one of two macros, or of a value before the last. -/
theorem variant_ne (e : Emitter) (owner : String) (target : Option Target) (steps : List Request)
    (hSteps : ∀ r ∈ steps, r.Inner) {o o' : Overload}
    (ho : o ∈ (e.reset owner target).accepts steps)
    (ho' : o' ∈ (e.reset owner target).accepts steps)
    (hDiffer : o.name ≠ o'.name ∨ o.definition.values ≠ o'.definition.values)
    (hNames : o.name ≠ o'.name → Clear o.name ∧ Clear o'.name)
    (hValues : o.name = o'.name →
      ∀ value ∈ o.definition.values.dropLast ++ o'.definition.values.dropLast, Clear value) :
    o.definition.variant ≠ o'.definition.variant := by
  by_cases hName : o.name = o'.name
  · have hGroup := group_eq_of_accepted e owner target hSteps ho ho' hName
    have hLength : o.definition.values.length = o'.definition.values.length := by
      have hKeys := congrArg (fun group => group.keys.length) hGroup
      simpa [Overload.group, Definition.group, Definition.values] using hKeys
    have hSame : o.definition.name = o'.definition.name := hName
    rw [Definition.variant, Definition.variant, hSame]
    exact variantName_ne_of_values hLength (hValues hName) (hDiffer.resolve_left (· hName))
  · exact variantName_ne_of_name (hNames hName).1 (hNames hName).2 hName _ _

/-- One overload of a macro with two keys, for these values of them. -/
def pick (first second : String) : Definition where
  name := "M"
  params := some ["A", "B"]
  expansion := first
  overload := [("A", first), ("B", second)]

/-- Requests for overloads of the macro, for these pairs of values. -/
def picks (values : List (String × String)) : List Request :=
  values.map fun v => .define (pick v.1 v.2)

/-- Two overloads of one macro with the values 1, 2 and 2, 1 have different names. -/
theorem variant_ne_pick :
    ⟨"a.c:1", pick "1" "2"⟩ ∈ (({} : Emitter).reset "a.c:1" none).accepts
      (picks [("1", "2"), ("2", "1")]) ∧
    ⟨"a.c:1", pick "2" "1"⟩ ∈ (({} : Emitter).reset "a.c:1" none).accepts
      (picks [("1", "2"), ("2", "1")]) ∧
    (pick "1" "2").variant ≠ (pick "2" "1").variant := by
  have hFirst : ⟨"a.c:1", pick "1" "2"⟩ ∈ (({} : Emitter).reset "a.c:1" none).accepts
      (picks [("1", "2"), ("2", "1")]) := by decide
  have hSecond : ⟨"a.c:1", pick "2" "1"⟩ ∈ (({} : Emitter).reset "a.c:1" none).accepts
      (picks [("1", "2"), ("2", "1")]) := by decide
  have hInner : ∀ r ∈ picks [("1", "2"), ("2", "1")], r.Inner := by
    simp [picks, Request.Inner, Request.owner?, Request.ends]
  have hDifferent := variant_ne {} "a.c:1" none _ hInner hFirst hSecond (.inr (by decide))
    (by decide) (by decide)
  exact ⟨hFirst, hSecond, hDifferent⟩

/-- Values with double underscores make one macro of two overloads. -/
theorem variants_collide :
    (({} : Emitter).reset "a.c:1" none).accepts (picks [("1__2", "3"), ("1", "2__3")]) =
      [⟨"a.c:1", pick "1__2" "3"⟩, ⟨"a.c:1", pick "1" "2__3"⟩] ∧
    (pick "1__2" "3").values ≠ (pick "1" "2__3").values ∧
    (pick "1__2" "3").variant = (pick "1" "2__3").variant := by
  decide

end Metagen.Emission
