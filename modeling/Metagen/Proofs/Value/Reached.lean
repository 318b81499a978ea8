import Metagen.Proofs.Value.Cells
import Metagen.Value.Copy
import Mathlib.Data.List.Nodup
import Mathlib.Data.List.Perm.Subperm

/-! The containers that can be reached from a value. Whatever is inside one of them is among them,
and nothing else is: what holds of the value, and passes from a container to those inside it, holds
of all of them. -/

namespace Metagen

def Container.cell : Container → StoreCell
  | .list cell => .list cell
  | .record cell => .record cell

theorem Value.cell?_of_container? {v : Value} {c : Container} (h : v.container? = some c) :
    v.cell? = some c.cell := by
  cases v <;> cases h <;> rfl

namespace Store

def inside (s : Store) (c : Container) : List Container := (s.contents c).filterMap Value.container?

/-- Add those of some containers that are not there yet, each once; the second list holds what was
added. -/
def addNew (found : List Container) : List Container → List Container × List Container
  | [] => (found, [])
  | c :: rest =>
    if c ∈ found then addNew found rest
    else
      let (all, added) := addNew (found ++ [c]) rest
      (all, c :: added)

/-- The containers reached from those found, when only the inside of `recent` has not been looked
at. Every round but the last finds another cell, so that the number of cells is enough rounds. -/
def reachedFrom (s : Store) : Nat → List Container → List Container → List Container
  | 0, found, _ => found
  | rounds + 1, found, recent =>
    match addNew found (recent.flatMap s.inside) with
    | (all, []) => all
    | (all, added) => reachedFrom s rounds all added

/-- The containers that can be reached from a value, itself included, each once. -/
def reached (s : Store) (v : Value) : List Container :=
  match v.container? with
  | some c => s.reachedFrom s.nestingBound [c] [c]
  | none => []

variable {s t : Store} {v : Value} {found recent : List Container}

/-- The cell that a value stands for has been made. -/
def HasValue (s : Store) (v : Value) : Prop := ∀ x, v.cell? = some x → s.HasCell x

/-- The value is the first one, or somewhere in it. -/
def HoldsValue (s : Store) (v w : Value) : Prop := w = v ∨ ∃ c ∈ s.reached v, w ∈ s.contents c

/-- A cell that a value in a container stands for is one that the container leads to. -/
theorem mem_links_of_mem_contents {c : Container} {w : Value} {x : StoreCell}
    (hw : w ∈ s.contents c) (hx : w.cell? = some x) : x ∈ s.links c.cell := by
  cases c with
  | list cell => exact List.mem_filterMap.2 ⟨w, hw, hx⟩
  | record cell => exact List.mem_filterMap.2 ⟨w, hw, hx⟩

theorem cell_mem_links {c x : Container} (h : x ∈ s.inside c) : x.cell ∈ s.links c.cell := by
  obtain ⟨w, hw, hx⟩ := List.mem_filterMap.1 h
  exact mem_links_of_mem_contents hw (Value.cell?_of_container? hx)

theorem Agrees.contents_eq {c : Container} (h : s.Agrees t c.cell) :
    s.contents c = t.contents c := by
  cases c with
  | list cell => exact congrArg Array.toList h
  | record cell => exact congrArg Bindings.values h

theorem Agrees.inside_eq {c : Container} (h : s.Agrees t c.cell) : s.inside c = t.inside c := by
  rw [inside, inside, h.contents_eq]

/-- Adding new containers puts them behind those that were found, and tells which ones are new. -/
theorem addNew_append (found cs : List Container) :
    (addNew found cs).1 = found ++ (addNew found cs).2 := by
  induction cs generalizing found with
  | nil => exact (List.append_nil found).symm
  | cons c rest ih =>
      rw [addNew]
      split
      · exact ih found
      · rw [ih (found ++ [c]), List.append_assoc, List.singleton_append]

theorem eq_append_of_addNew {cs all added : List Container}
    (h : addNew found cs = (all, added)) : all = found ++ added := by
  have hAppend := addNew_append found cs
  rw [h] at hAppend
  exact hAppend

/-- After adding new containers exactly the old ones and the given ones are there. -/
theorem mem_addNew_iff (found cs : List Container) (x : Container) :
    x ∈ (addNew found cs).1 ↔ x ∈ found ∨ x ∈ cs := by
  induction cs generalizing found with
  | nil => simp [addNew]
  | cons c rest ih =>
      rw [addNew]
      split
      next hFound =>
        rw [ih found, List.mem_cons]
        constructor
        · exact Or.imp_right .inr
        · rintro (hOld | rfl | hRest)
          · exact .inl hOld
          · exact .inl hFound
          · exact .inr hRest
      next hNew =>
        rw [ih (found ++ [c]), List.mem_append, List.mem_singleton, List.mem_cons, or_assoc]

/-- Containers are added once each, so that they stay distinct. -/
theorem nodup_addNew (cs : List Container) (h : found.Nodup) : (addNew found cs).1.Nodup := by
  induction cs generalizing found with
  | nil => exact h
  | cons c rest ih =>
      rw [addNew]
      split
      · exact ih h
      · apply ih
        rw [← List.concat_eq_append]
        exact List.Nodup.concat ‹_› h

/-- The containers found so far are distinct, and only the inside of the recent ones has not been
looked at. -/
structure Search (s : Store) (found recent : List Container) : Prop where
  nodup : found.Nodup
  made : ∀ c ∈ found, s.HasCell c.cell
  looked : ∀ c ∈ found, c ∉ recent → ∀ x ∈ s.inside c, x ∈ found

/-- The next round looks at the inside of the recent ones. -/
theorem Search.next (h : s.Search found recent) (hClosed : s.Closed) :
    s.Search (addNew found (recent.flatMap s.inside)).1
      (addNew found (recent.flatMap s.inside)).2 := by
  refine ⟨nodup_addNew _ h.nodup, fun c hc => ?_, fun c hc hOld x hx => ?_⟩
  · rcases (mem_addNew_iff _ _ _).1 hc with hFound | hNew
    · exact h.made c hFound
    · obtain ⟨outer, -, hInside⟩ := List.mem_flatMap.1 hNew
      exact hClosed _ _ (cell_mem_links hInside)
  · rw [addNew_append, List.mem_append] at hc
    have hFound : c ∈ found := hc.resolve_right hOld
    rw [mem_addNew_iff]
    by_cases hRecent : c ∈ recent
    · exact .inr (List.mem_flatMap.2 ⟨c, hRecent, hx⟩)
    · exact .inl (h.looked c hFound hRecent x hx)

/-- There are only so many cells. -/
theorem length_lt_nestingBound (hNodup : found.Nodup) (hHas : ∀ c ∈ found, s.HasCell c.cell) :
    found.length < s.nestingBound := by
  let made := (List.range s.lists.size).map Container.list ++
    (List.range s.records.size).map Container.record
  have hMade : found ⊆ made := by
    intro c hc
    have hCell := hHas c hc
    cases c with
    | list cell =>
        apply List.mem_append_left
        exact List.mem_map_of_mem (List.mem_range.2 hCell)
    | record cell =>
        apply List.mem_append_right
        exact List.mem_map_of_mem (List.mem_range.2 hCell)
  have hLength : found.length ≤ made.length := (List.Nodup.subperm hNodup hMade).length_le
  simp only [made, List.length_append, List.length_map, List.length_range] at hLength
  rw [nestingBound]
  omega

/-- A search never loses what it has found. -/
theorem subset_reachedFrom (s : Store) (rounds : Nat) (found recent : List Container) :
    found ⊆ s.reachedFrom rounds found recent := by
  induction rounds generalizing found recent with
  | zero => exact List.Subset.refl found
  | succ rounds ih =>
      rw [reachedFrom]
      split
      next all hAdd =>
        obtain rfl := eq_append_of_addNew hAdd
        exact List.subset_append_left found []
      next all added _ hAdd =>
        obtain rfl := eq_append_of_addNew hAdd
        exact fun c hc => ih _ _ (List.mem_append_left added hc)

/-- With enough rounds nothing is left to look at. -/
theorem Search.finish {rounds : Nat} (h : s.Search found recent) (hClosed : s.Closed)
    (hRounds : s.nestingBound ≤ found.length + rounds) :
    s.Search (s.reachedFrom rounds found recent) [] := by
  induction rounds generalizing found recent with
  | zero =>
      have hLength := length_lt_nestingBound h.nodup h.made
      omega
  | succ rounds ih =>
      have hNext := h.next hClosed
      rw [reachedFrom]
      split
      next all hAdd =>
        rw [hAdd] at hNext
        exact hNext
      next all added hSome hAdd =>
        obtain rfl := eq_append_of_addNew hAdd
        rw [hAdd] at hNext
        have hLess : 0 < added.length := List.length_pos_iff.2 hSome
        apply ih hNext
        rw [List.length_append]
        omega

/-- A property that passes from containers to those inside them holds of everything that a search
finds. -/
theorem reachedFrom_induct {P : Container → Prop}
    (hInside : ∀ c, P c → ∀ x ∈ s.inside c, P x) {rounds : Nat} (hFound : ∀ c ∈ found, P c)
    (hRecent : recent ⊆ found) : ∀ c ∈ s.reachedFrom rounds found recent, P c := by
  induction rounds generalizing found recent with
  | zero => exact hFound
  | succ rounds ih =>
      have hAll : ∀ c ∈ (addNew found (recent.flatMap s.inside)).1, P c := by
        intro c hc
        rcases (mem_addNew_iff _ _ _).1 hc with hOld | hNew
        · exact hFound c hOld
        · obtain ⟨outer, hOuter, hc⟩ := List.mem_flatMap.1 hNew
          exact hInside outer (hFound outer (hRecent hOuter)) c hc
      rw [reachedFrom]
      split
      next all hAdd =>
        rw [hAdd] at hAll
        exact hAll
      next all added hSome hAdd =>
        obtain rfl := eq_append_of_addNew hAdd
        rw [hAdd] at hAll
        exact ih hAll (List.subset_append_right found added)

/-- What passes from containers to those inside them holds of everything that is reached. -/
theorem reached_induct {P : Container → Prop} (hRoot : ∀ c, v.container? = some c → P c)
    (hInside : ∀ c, P c → ∀ x ∈ s.inside c, P x) : ∀ c ∈ s.reached v, P c := by
  rw [reached]
  cases hRootCell : v.container? with
  | none => simp
  | some root =>
      refine reachedFrom_induct hInside ?_ (List.Subset.refl _)
      rintro c (_ | ⟨_, hc⟩)
      · exact hRoot root hRootCell
      · cases hc

theorem root_mem_reached {c : Container} (h : v.container? = some c) : c ∈ s.reached v := by
  rw [reached, h]
  exact subset_reachedFrom _ _ _ _ List.mem_cons_self

/-- A search with as many rounds as there are cells has looked into everything it has found. -/
theorem search_reached (hClosed : s.Closed) (hv : s.HasValue v) : s.Search (s.reached v) [] := by
  rw [reached]
  cases hRoot : v.container? with
  | none => exact ⟨List.nodup_nil, by simp, by simp⟩
  | some root =>
      have hStart : s.Search [root] [root] := by
        refine ⟨List.nodup_singleton root, ?_, fun c hc hOld => (hOld hc).elim⟩
        rintro c (_ | ⟨_, hc⟩)
        · exact hv _ (Value.cell?_of_container? hRoot)
        · cases hc
      exact hStart.finish hClosed (Nat.le_add_left _ _)

theorem hasCell_of_mem_reached (hClosed : s.Closed) (hv : s.HasValue v) {c : Container}
    (h : c ∈ s.reached v) : s.HasCell c.cell := (search_reached hClosed hv).made c h

theorem mem_reached_of_inside (hClosed : s.Closed) (hv : s.HasValue v) {c x : Container}
    (hc : c ∈ s.reached v) (hx : x ∈ s.inside c) : x ∈ s.reached v :=
  (search_reached hClosed hv).looked c hc List.not_mem_nil x hx

/-- While its containers hold the same, no others come to be in a value. -/
theorem mem_reached_of_agrees (hClosed : s.Closed) (hv : s.HasValue v)
    (h : ∀ c ∈ s.reached v, s.Agrees t c.cell) : ∀ c ∈ t.reached v, c ∈ s.reached v := by
  refine reached_induct (fun c hc => root_mem_reached hc) ?_
  intro c hc x hx
  rw [← (h c hc).inside_eq] at hx
  exact mem_reached_of_inside hClosed hv hc hx

end Store

end Metagen
