import Metagen.Proofs.Value.Alike

/-! What a copy has to do with its original. The lists and records in the copy are new, and stand
one to one for those in the original, with the same lengths, the same names in the same order, and
the same values other than lists and records. So whoever follows the same way through both comes to
the same value, or to containers of which one is the copy of the other; and two ways end in one
container of the copy only if they end in one container of the original. -/

namespace Metagen

/-- Values at the same place match. -/
theorem forall₂_getElem? {α β : Type} {P : α → β → Prop} {xs : List α} {ys : List β}
    (h : List.Forall₂ P xs ys) (i : Nat) : Option.Rel P xs[i]? ys[i]? := by
  induction h generalizing i with
  | nil => exact .none
  | cons hFirst _ ih =>
      cases i with
      | zero => exact .some hFirst
      | succ i => exact ih i

namespace Store

/-- The container is the value or somewhere in it. Functions are not looked into. -/
inductive Contains (s : Store) (v : Value) : Container → Prop where
  | root {c : Container} (h : v.container? = some c) : Contains s v c
  | inside {c d : Container} (h : Contains s v c) (hInside : d ∈ s.inside c) : Contains s v d

/-- The value at a place in another one: each number tells which of the values to go to that are
directly inside the one before. -/
def valueAt (s : Store) (v : Value) : List Nat → Option Value
  | [] => some v
  | i :: rest => do
    let c ← v.container?
    let w ← (s.contents c)[i]?
    s.valueAt w rest

/-- Both places hold one and the same list or record. -/
def Shares (s : Store) (v : Value) (first second : List Nat) : Prop :=
  ∃ c, (s.valueAt v first).bind Value.container? = some c ∧
    (s.valueAt v second).bind Value.container? = some c

/-- The second value stands in new cells for the first one. -/
structure Copied (s : Store) (v : Value) (t : Store) (w : Value)
    (R : Container → Container → Prop) : Prop where
  unique : Relator.BiUnique R
  original : ∀ c, s.Contains v c ↔ ∃ d, R c d
  copy : ∀ d, t.Contains w d ↔ ∃ c, R c d
  own : ∀ c d, R c d → s.HasCell c.cell ∧ t.HasCell d.cell ∧ ¬ s.HasCell d.cell
  contents : ∀ c d, R c d → MatchContents R s t c d
  value : MatchValue R v w

variable {s t : Store} {v w : Value} {R : Container → Container → Prop} {c d : Container}

/-- What a value contains, however deep, is exactly what the search from it finds. -/
theorem contains_iff_mem_reached (hClosed : s.Closed) (hv : s.HasValue v) :
    s.Contains v c ↔ c ∈ s.reached v := by
  constructor
  · intro h
    induction h with
    | root h => exact root_mem_reached h
    | inside _ hInside ih => exact mem_reached_of_inside hClosed hv ih hInside
  · exact reached_induct (fun _ => .root) (fun _ h _ hInside => h.inside hInside) c

/-- Every container that was met has a copy. -/
theorem exists_copyOf_of_mem {cs : List Container} (h : c ∈ cs) : ∃ d, s.CopyOf cs c d := by
  obtain ⟨i, hi⟩ := exists_nth h
  cases c with
  | list cell => exact ⟨_, .list hi rfl⟩
  | record cell => exact ⟨_, .record hi rfl⟩

/-- Whatever contains related containers on one side does so on the other. -/
theorem exists_inside_of_matchContents (h : MatchContents R s t c d) {y : Container}
    (hy : y ∈ t.inside d) : ∃ x ∈ s.inside c, R x y := by
  obtain ⟨u, hu, huy⟩ := List.mem_filterMap.1 hy
  obtain ⟨z, hz, hMatch⟩ := exists_of_mem_right h.contents hu
  obtain ⟨x, hx, hPair⟩ := hMatch.related huy
  exact ⟨x, List.mem_filterMap.2 ⟨z, hz, hx⟩, hPair⟩

/-- The containers of the second value are counterparts of those of the first. -/
theorem exists_of_contains (hContents : ∀ c d, R c d → MatchContents R s t c d)
    (hValue : MatchValue R v w) (h : t.Contains w d) : ∃ c, s.Contains v c ∧ R c d := by
  induction h with
  | root h =>
      obtain ⟨c, hc, hPair⟩ := hValue.related h
      exact ⟨c, .root hc, hPair⟩
  | inside _ hInside ih =>
      obtain ⟨c, hc, hPair⟩ := ih
      obtain ⟨x, hx, hNext⟩ := exists_inside_of_matchContents (hContents _ _ hPair) hInside
      exact ⟨x, hc.inside hx, hNext⟩

/-- A deep copy is a copy: it matches the value, new cells stand for old ones one to one, and
functions stay as they are. -/
theorem copied_deepCopy (hClosed : s.Closed) (hv : s.HasValue v) :
    Copied s v (s.deepCopy v).2 (s.deepCopy v).1 (s.CopyOf (s.met v)) := by
  have hUnique := s.copyOf_biUnique (nodup_met hClosed hv)
  have hContents : ∀ c d, s.CopyOf (s.met v) c d →
      MatchContents (s.CopyOf (s.met v)) s (s.deepCopy v).2 c d := fun c d hCopy =>
    matchContents_deepCopy hClosed hv (fun _ _ => .refl _ _) (fun _ _ => .refl _ _) hCopy
  have hValue := matchValue_deepCopy hClosed hv
  have hOriginal : ∀ c, s.Contains v c ↔ ∃ d, s.CopyOf (s.met v) c d := by
    intro c
    rw [contains_iff_mem_reached hClosed hv, ← mem_met_iff hClosed hv]
    exact ⟨exists_copyOf_of_mem, fun ⟨_, hCopy⟩ => hCopy.mem⟩
  refine ⟨hUnique, hOriginal, fun d => ⟨fun h => ?_, ?_⟩, fun c d hCopy => ?_, hContents, hValue⟩
  · obtain ⟨c, -, hCopy⟩ := exists_of_contains hContents hValue h
    exact ⟨c, hCopy⟩
  · -- The same once more, from the copy to the original.
    rintro ⟨c, hCopy⟩
    obtain ⟨e, hContains, hSame⟩ := exists_of_contains (fun _ _ h => (hContents _ _ h).flip)
      hValue.flip ((hOriginal c).2 ⟨d, hCopy⟩)
    obtain rfl := hUnique.2 hCopy hSame
    exact hContains
  · have hReached := hCopy.mem_reached hClosed hv
    exact ⟨hasCell_of_mem_reached hClosed hv hReached, hCopy.hasCell hClosed hv, hCopy.not_hasCell⟩

/-- The same way through matching values leads to matching values. By induction on the way. -/
theorem valueAt_rel (hContents : ∀ c d, R c d → MatchContents R s t c d)
    (hValue : MatchValue R v w) (place : List Nat) :
    Option.Rel (MatchValue R) (s.valueAt v place) (t.valueAt w place) := by
  induction place generalizing v w with
  | nil => exact .some hValue
  | cons i rest ih =>
      rw [valueAt, valueAt]
      cases hValue with
      | plain hPlain =>
          rw [hPlain]
          exact .none
      | container hv hw hPair =>
          rw [hv, hw]
          change Option.Rel _ (((s.contents _)[i]?).bind (s.valueAt · rest))
            (((t.contents _)[i]?).bind (t.valueAt · rest))
          have hItem := forall₂_getElem? (hContents _ _ hPair).contents i
          generalize (s.contents _)[i]? = x at hItem ⊢
          generalize (t.contents _)[i]? = y at hItem ⊢
          cases hItem with
          | none => exact .none
          | some hMatch => exact ih hMatch

/-- A place holds a container in both, or in neither. -/
theorem Copied.container?_valueAt (h : Copied s v t w R) (place : List Nat) :
    Option.Rel R ((s.valueAt v place).bind Value.container?)
      ((t.valueAt w place).bind Value.container?) := by
  have hPlace := valueAt_rel h.contents h.value place
  generalize s.valueAt v place = x at hPlace ⊢
  generalize t.valueAt w place = y at hPlace ⊢
  cases hPlace with
  | none => exact .none
  | some hMatch =>
      cases hMatch with
      | container hx hy hPair =>
          rw [Option.bind_some, Option.bind_some, hx, hy]
          exact .some hPair
      | plain hx =>
          rw [Option.bind_some, hx]
          exact .none

/-- Two ways through a copy lead to one container exactly if they do so through the value. -/
theorem Copied.shares_iff (h : Copied s v t w R) (first second : List Nat) :
    t.Shares w first second ↔ s.Shares v first second := by
  have hFirst := h.container?_valueAt first
  have hSecond := h.container?_valueAt second
  rw [Shares, Shares]
  generalize (s.valueAt v first).bind Value.container? = a at hFirst ⊢
  generalize (t.valueAt w first).bind Value.container? = b at hFirst ⊢
  generalize (s.valueAt v second).bind Value.container? = a' at hSecond ⊢
  generalize (t.valueAt w second).bind Value.container? = b' at hSecond ⊢
  cases hFirst with
  | none => simp
  | some hPair =>
      cases hSecond with
      | none => simp
      | some hPair' =>
          constructor
          · rintro ⟨d, ⟨⟩, ⟨⟩⟩
            exact ⟨_, rfl, congrArg some (h.unique.1 hPair' hPair)⟩
          · rintro ⟨c, ⟨⟩, ⟨⟩⟩
            exact ⟨_, rfl, congrArg some (h.unique.2 hPair' hPair)⟩

/-- What is no container is the same at the same place, functions included. -/
theorem Copied.plain_iff (h : Copied s v t w R) (place : List Nat) {x : Value}
    (hx : x.container? = none) : t.valueAt w place = some x ↔ s.valueAt v place = some x := by
  have hPlace := valueAt_rel h.contents h.value place
  generalize s.valueAt v place = a at hPlace ⊢
  generalize t.valueAt w place = b at hPlace ⊢
  cases hPlace with
  | none => rfl
  | some hMatch =>
      cases hMatch with
      | container ha hb _ =>
          constructor
          · rintro ⟨⟩
            rw [hx] at hb
            cases hb
          · rintro ⟨⟩
            rw [hx] at ha
            cases ha
      | plain _ => rfl

/-- Whatever containers there are, however they are shared and also if they contain themselves:
copying comes to its end, under every bound that is not too low and always in the same way. It
leaves every cell as it is, and makes for each list and record in the value one new cell, which is
laid out like the old one and shared by the same places. Everything else in the copy is what it was,
functions included. -/
theorem deepCopy_isolated (hClosed : s.Closed) (hv : s.HasValue v) :
    (∀ depth, s.nestingBound ≤ depth → s.copyWith depth v {} = some (s.copied v)) ∧
    s.deepCopy v = ((s.copied v).1,
      { s with
        lists := s.lists ++ (s.copied v).2.lists
        records := s.records ++ (s.copied v).2.records }) ∧
    (∀ x, s.HasCell x → s.Agrees (s.deepCopy v).2 x) ∧
    (∃ R, Copied s v (s.deepCopy v).2 (s.deepCopy v).1 R) ∧
    (∀ first second, (s.deepCopy v).2.Shares (s.deepCopy v).1 first second ↔
      s.Shares v first second) ∧
    ∀ place x, x.container? = none →
      ((s.deepCopy v).2.valueAt (s.deepCopy v).1 place = some x ↔ s.valueAt v place = some x) := by
  have hCopied := copied_deepCopy hClosed hv
  refine ⟨fun _ hDepth => copyWith_eq_some hClosed hv hDepth, rfl,
    fun _ hx => agrees_deepCopy hx v, ⟨_, hCopied⟩, hCopied.shares_iff, fun place x hx => ?_⟩
  exact hCopied.plain_iff place hx

/-- A list that contains itself twice, and a record with a builtin in it that is shared. -/
def knot : Store where
  lists := #[#[.list 0, .record 0, .list 0, .record 0]]
  records := #[.ofList [("whole", .list 0), ("length", .builtin .len)]]

/-- A list that contains itself twice and a shared record: the copy shares what the list shares, and
the builtin function is still in it. -/
theorem deepCopy_isolated_knot :
    (knot.Closed ∧ knot.HasValue (.list 0)) ∧
      (knot.deepCopy (.list 0)).2.Shares (knot.deepCopy (.list 0)).1 [1, 0, 3] [0, 1] ∧
      (knot.deepCopy (.list 0)).2.valueAt (knot.deepCopy (.list 0)).1 [2, 3, 1] =
        some (.builtin .len) := by
  have hClosed : knot.Closed := by
    intro x y hy
    have hHas := hasCell_of_mem_links hy
    have hCells : y = .list 0 ∨ y = .record 0 := by
      cases x with
      | list cell =>
          obtain rfl := Nat.lt_one_iff.1 hHas
          have hItems : ∀ z ∈ knot.links (.list 0), z = .list 0 ∨ z = .record 0 := by decide
          exact hItems y hy
      | record cell =>
          obtain rfl := Nat.lt_one_iff.1 hHas
          exact .inl (List.mem_singleton.1 hy)
      | _ => exact absurd hHas (Nat.not_lt_zero _)
    rcases hCells with rfl | rfl <;> exact Nat.one_pos
  have hValue : knot.HasValue (.list 0) := by
    rintro x ⟨⟩
    exact Nat.one_pos
  obtain ⟨-, -, -, -, hShares, hPlain⟩ := deepCopy_isolated hClosed hValue
  exact ⟨⟨hClosed, hValue⟩, (hShares _ _).2 ⟨.record 0, rfl, rfl⟩, (hPlain _ _ rfl).2 rfl⟩

end Store

end Metagen
