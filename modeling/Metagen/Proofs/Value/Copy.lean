import Metagen.Proofs.Value.Copying
import Metagen.Proofs.Value.Guard
import Mathlib.Data.List.Forall2

/-! Copies. A copy is laid out like the original, container by container and with the same sharing,
in cells of its own; the old cells stay as they are. Functions are the only cells that a copy has in
common with its original. -/

namespace Metagen

/-- Containers are matched by the relation, and everything else is the same. -/
inductive MatchValue (R : Container → Container → Prop) : Value → Value → Prop where
  | container {v w : Value} {c d : Container} (hv : v.container? = some c)
      (hw : w.container? = some d) (h : R c d) : MatchValue R v w
  | plain {v : Value} (hv : v.container? = none) : MatchValue R v v

/-- Two containers of the same kind whose contents match, in order and with the same names. -/
inductive MatchContents (R : Container → Container → Prop) (s t : Store) :
    Container → Container → Prop where
  | list {a b : Nat}
      (h : List.Forall₂ (MatchValue R) (s.listAt a).toList (t.listAt b).toList) :
      MatchContents R s t (.list a) (.list b)
  | record {a b : Nat}
      (h : List.Forall₂ (fun x y => x.1 = y.1 ∧ MatchValue R x.2 y.2) (s.recordAt a).entries
        (t.recordAt b).entries) :
      MatchContents R s t (.record a) (.record b)

/-- The values look the same, each in its own store: the containers in them are related one to one,
and related containers have the same layout. -/
def Alike (s : Store) (v : Value) (t : Store) (w : Value) : Prop :=
  ∃ R : Container → Container → Prop, Relator.BiUnique R ∧
    (∀ c d, R c d → MatchContents R s t c d) ∧ MatchValue R v w

namespace Store

variable {s t : Store} {v : Value} {cs : List Container} {c d : Container}

/-- A value matches what it is renamed to if its container is among those that are copied. -/
theorem matchValue_renameIn (h : ∀ c, v.container? = some c → c ∈ cs) :
    MatchValue (s.CopyOf cs) v (s.renameIn cs v) := by
  cases hv : v.container? with
  | none =>
      rw [renameIn_of_plain hv]
      exact .plain hv
  | some c =>
      obtain ⟨d, hd, hCopy⟩ := container?_renameIn (s := s) hv (h c hv)
      exact .container hv hd hCopy

/-- Each container that is met gets a copy, and the copy is filled before copying ends. -/
theorem filled_copied (hClosed : s.Closed) (hv : s.HasValue v) (hc : c ∈ s.met v) :
    (s.copied v).2.Filled s (s.met v) c :=
  (copies_copied hClosed hv).filled (s.met v) (nodup_met hClosed hv) List.prefix_rfl c hc
    List.not_mem_nil

/-- A copied list holds the items of the old one, with copies in place of the containers. -/
theorem listAt_deepCopy (hClosed : s.Closed) (hv : s.HasValue v) {a b : Nat}
    (h : s.CopyOf (s.met v) (.list a) (.list b)) :
    (s.deepCopy v).2.listAt b = (s.listAt a).map (s.renameIn (s.met v)) := by
  have hFilled := filled_copied hClosed hv h.mem
  cases h with
  | @list i _ _ h hNew =>
      subst hNew
      exact getD_append_right (hFilled i h) _ _

/-- A copied record holds the fields of the old one, with copies in place of the containers. -/
theorem recordAt_deepCopy (hClosed : s.Closed) (hv : s.HasValue v) {a b : Nat}
    (h : s.CopyOf (s.met v) (.record a) (.record b)) :
    (s.deepCopy v).2.recordAt b = (s.recordAt a).map (s.renameIn (s.met v)) := by
  have hFilled := filled_copied hClosed hv h.mem
  cases h with
  | @record i _ _ h hNew =>
      subst hNew
      exact getD_append_right (hFilled i h) _ _

/-- Copying a value only adds cells, even where the value contains itself. -/
theorem grown_deepCopy (s : Store) (v : Value) : s.Grown (s.deepCopy v).2 :=
  { Grown.refl s with
    lists := by simp [deepCopy]
    records := by simp [deepCopy] }

/-- What was there before stays as it was. -/
theorem agrees_deepCopy {x : StoreCell} (hx : s.HasCell x) (v : Value) :
    s.Agrees (s.deepCopy v).2 x := by
  cases x with
  | list cell => exact (getD_append_left hx _ #[]).symm
  | record cell => exact (getD_append_left hx _ {}).symm
  | _ => rfl

/-- The lists and records that are new are copies. -/
theorem exists_copyOf (hClosed : s.Closed) (hv : s.HasValue v)
    (hHas : (s.deepCopy v).2.HasCell d.cell) (hNew : ¬ s.HasCell d.cell) :
    ∃ c, s.CopyOf (s.met v) c d := by
  have hSound := (copies_copied hClosed hv).sound
  cases d with
  | list cell =>
      obtain ⟨i, rfl⟩ := Nat.exists_eq_add_of_le (Nat.not_lt.1 hNew)
      have hLess : i < (listCells (s.met v)).length := by
        rw [met, ← hSound.lists]
        simpa [Container.cell, HasCell, deepCopy] using hHas
      exact ⟨_, .list (List.getElem?_eq_getElem hLess) rfl⟩
  | record cell =>
      obtain ⟨i, rfl⟩ := Nat.exists_eq_add_of_le (Nat.not_lt.1 hNew)
      have hLess : i < (recordCells (s.met v)).length := by
        rw [met, ← hSound.records]
        simpa [Container.cell, HasCell, deepCopy] using hHas
      exact ⟨_, .record (List.getElem?_eq_getElem hLess) rfl⟩

/-- The copies of containers are there when the whole value has been copied. -/
theorem CopyOf.hasCell (h : s.CopyOf (s.met v) c d) (hClosed : s.Closed) (hv : s.HasValue v) :
    (s.deepCopy v).2.HasCell d.cell := by
  have hSound := (copies_copied hClosed hv).sound
  cases h with
  | list h hNew =>
      have hLess := (List.getElem?_eq_some_iff.1 h).1
      rw [met, ← hSound.lists] at hLess
      simpa [hNew, Container.cell, HasCell, deepCopy] using hLess
  | record h hNew =>
      have hLess := (List.getElem?_eq_some_iff.1 h).1
      rw [met, ← hSound.records] at hLess
      simpa [hNew, Container.cell, HasCell, deepCopy] using hLess

theorem CopyOf.mem_reached (h : s.CopyOf (s.met v) c d) (hClosed : s.Closed)
    (hv : s.HasValue v) : c ∈ s.reached v := (mem_met_iff hClosed hv).1 h.mem

/-- A copy holds what its original holds, renamed. -/
theorem contents_deepCopy (hClosed : s.Closed) (hv : s.HasValue v)
    (h : s.CopyOf (s.met v) c d) :
    (s.deepCopy v).2.contents d = (s.contents c).map (s.renameIn (s.met v)) := by
  cases h with
  | list h hNew =>
      rw [contents, listAt_deepCopy hClosed hv (.list h hNew), Array.toList_map]
      rfl
  | record h hNew =>
      rw [contents, recordAt_deepCopy hClosed hv (.record h hNew)]
      simp only [contents, Bindings.values, Bindings.map, List.map_map]
      rfl

/-- What is inside a container that a value reaches is reached too. -/
theorem mem_reached_of_mem_contents (hClosed : s.Closed) (hv : s.HasValue v) {w : Value}
    (hc : c ∈ s.reached v) (hw : w ∈ s.contents c) {x : Container} (hx : w.container? = some x) :
    x ∈ s.reached v :=
  mem_reached_of_inside hClosed hv hc (List.mem_filterMap.2 ⟨w, hw, hx⟩)

/-- A copied container holds what its copy holds, in all stores in which both are still the same. -/
theorem matchContents_deepCopy (hClosed : s.Closed) (hv : s.HasValue v) {first last : Store}
    (hOld : ∀ c ∈ s.reached v, first.Agrees s c.cell)
    (hNew : ∀ d : Container, (s.deepCopy v).2.HasCell d.cell → (s.deepCopy v).2.Agrees last d.cell)
    (hCopy : s.CopyOf (s.met v) c d) :
    MatchContents (s.CopyOf (s.met v)) first last c d := by
  have hReached := hCopy.mem_reached hClosed hv
  have hMatch : ∀ w ∈ s.contents c,
      MatchValue (s.CopyOf (s.met v)) w (s.renameIn (s.met v) w) := by
    intro w hw
    apply matchValue_renameIn
    intro x hx
    exact (mem_met_iff hClosed hv).2 (mem_reached_of_mem_contents hClosed hv hReached hw hx)
  have hFirst := hOld c hReached
  have hLast := hNew d (hCopy.hasCell hClosed hv)
  cases hCopy with
  | @list i a b h hNew =>
      have hItems : last.listAt b = (s.listAt a).map (s.renameIn (s.met v)) :=
        Eq.trans (Eq.symm hLast) (listAt_deepCopy hClosed hv (.list h hNew))
      refine .list ?_
      rw [show first.listAt a = s.listAt a from hFirst, hItems, Array.toList_map,
        List.forall₂_map_right_iff, List.forall₂_same]
      exact hMatch
  | @record i a b h hNew =>
      have hFields : last.recordAt b = (s.recordAt a).map (s.renameIn (s.met v)) :=
        Eq.trans (Eq.symm hLast) (recordAt_deepCopy hClosed hv (.record h hNew))
      refine .record ?_
      rw [show first.recordAt a = s.recordAt a from hFirst, hFields, Bindings.map,
        List.forall₂_map_right_iff, List.forall₂_same]
      exact fun entry hEntry => ⟨rfl, hMatch entry.2 (List.mem_map_of_mem hEntry)⟩

theorem deepCopy_eq_renameIn (hClosed : s.Closed) (hv : s.HasValue v) :
    (s.deepCopy v).1 = s.renameIn (s.met v) v :=
  List.singleton_inj.1 ((copies_copied hClosed hv).values _ (nodup_met hClosed hv) List.prefix_rfl)

/-- A value matches its deep copy, container by container. -/
theorem matchValue_deepCopy (hClosed : s.Closed) (hv : s.HasValue v) :
    MatchValue (s.CopyOf (s.met v)) v (s.deepCopy v).1 := by
  rw [deepCopy_eq_renameIn hClosed hv]
  exact matchValue_renameIn fun _ hc => (mem_met_iff hClosed hv).2 (root_mem_reached hc)

/-- A copy looks like the original in all stores in which both are still the same. -/
theorem alike_deepCopy (hClosed : s.Closed) (hv : s.HasValue v) {first last : Store}
    (hOld : ∀ c ∈ s.reached v, first.Agrees s c.cell)
    (hNew : ∀ d : Container, (s.deepCopy v).2.HasCell d.cell →
      (s.deepCopy v).2.Agrees last d.cell) :
    Alike first v last (s.deepCopy v).1 :=
  ⟨s.CopyOf (s.met v), s.copyOf_biUnique (nodup_met hClosed hv),
    fun _ _ hCopy => matchContents_deepCopy hClosed hv hOld hNew hCopy,
    matchValue_deepCopy hClosed hv⟩

end Store

namespace Guard

variable {g : Guard} {s : Store} {v : Value}

/-- Copies of the value find no way to what is guarded. -/
structure Harmless (g : Guard) (v : Value) : Prop where
  made : g.base.HasValue v
  functions : ∀ f, g.base.HoldsValue v (.function f) → ¬ g.guards (.function f)

namespace Keeps

/-- What a free container holds is free, since nothing free leads to a guarded cell. -/
theorem contents (h : g.Keeps s) {c : Container} (hc : g.Free s c.cell) :
    g.FreeValues s (s.contents c) := by
  cases c with
  | list cell => exact h.listAt hc
  | record cell => exact h.recordAt hc

/-- Free values hold free values. -/
theorem freeValue_of_holdsValue (h : g.Keeps s) (hv : g.FreeValue s v) {w : Value}
    (hHolds : s.HoldsValue v w) : g.FreeValue s w := by
  rcases hHolds with rfl | ⟨c, hc, hw⟩
  · exact hv
  · have hFree : ∀ c ∈ s.reached v, g.Free s c.cell := by
      refine Store.reached_induct (fun c hc => hv _ (Value.cell?_of_container? hc)) ?_
      intro c hFree x hx
      exact h.closed _ hFree.2 _ (Store.cell_mem_links hx)
    exact h.contents (hFree c hc) w hw

/-- What a harmless value holds by now is free, or guarded and still what it was. -/
theorem free_or_reached (h : g.Keeps s) (hv : g.Harmless v) : ∀ c ∈ s.reached v,
    g.Free s c.cell ∨ g.guards c.cell ∧ c ∈ g.base.reached v := by
  have hEither : ∀ c ∈ g.base.reached v,
      g.Free s c.cell ∨ g.guards c.cell ∧ c ∈ g.base.reached v := by
    intro c hc
    by_cases hGuarded : g.guards c.cell
    · exact .inr ⟨hGuarded, hc⟩
    · have hHas := Store.hasCell_of_mem_reached g.closed hv.made hc
      exact .inl ⟨h.grown.hasCell hHas, hGuarded⟩
  refine Store.reached_induct ?_ ?_
  · exact fun c hc => hEither c (Store.root_mem_reached hc)
  · rintro c (hFree | ⟨hGuarded, hc⟩) x hx
    · exact .inl (h.closed _ hFree.2 _ (Store.cell_mem_links hx))
    · rw [← (h.agrees _ hGuarded).inside_eq] at hx
      exact hEither x (Store.mem_reached_of_inside g.closed hv.made hc hx)

/-- A function inside of a harmless value is free. -/
theorem free_of_holdsValue (h : g.Keeps s) (hv : g.Harmless v) {f : Nat}
    (hHolds : s.HoldsValue v (.function f)) : g.Free s (.function f) := by
  rcases hHolds with rfl | ⟨c, hc, hf⟩
  · exact ⟨h.grown.hasCell (hv.made _ rfl), hv.functions f (.inl rfl)⟩
  · rcases h.free_or_reached hv c hc with hFree | ⟨hGuarded, hBase⟩
    · exact freeValue_function.1 (h.contents hFree _ hf)
    · rw [← (h.agrees _ hGuarded).contents_eq] at hf
      have hHas := g.closed _ _ (Store.mem_links_of_mem_contents hf rfl)
      exact ⟨h.grown.hasCell hHas, hv.functions f (.inr ⟨c, hBase, hf⟩)⟩

/-- What stands in a copy for something in the original is free, if the functions are. -/
theorem freeValue_renameIn (h : g.Keeps s) (hv : s.HasValue v)
    (hFunctions : ∀ f, s.HoldsValue v (.function f) → g.Free s (.function f)) {w : Value}
    (hHolds : s.HoldsValue v w) :
    g.FreeValue (s.deepCopy v).2 (s.renameIn (s.met v) w) := by
  have hClosed := h.closedStore
  cases hContainer : w.container? with
  | some c =>
      have hc : c ∈ s.reached v := by
        rcases hHolds with rfl | ⟨outer, hOuter, hw⟩
        · exact Store.root_mem_reached hContainer
        · exact Store.mem_reached_of_mem_contents hClosed hv hOuter hw hContainer
      obtain ⟨d, hd, hCopy⟩ := Store.container?_renameIn (s := s) hContainer
        ((Store.mem_met_iff hClosed hv).2 hc)
      intro x hx
      rw [Value.cell?_of_container? hd] at hx
      obtain rfl := Option.some.inj hx
      exact ⟨hCopy.hasCell hClosed hv, h.not_guards_of_not_hasCell hCopy.not_hasCell⟩
  | none =>
      rw [Store.renameIn_of_plain hContainer]
      cases w with
      | function f => exact freeValue_function.2 ((hFunctions f hHolds).mono (s.grown_deepCopy v))
      | list cell => cases hContainer
      | record cell => cases hContainer
      | _ => exact freeValue_of_cell?_eq_none rfl

/-- Copying a value keeps what is guarded, and the copy leads nowhere near it, if its functions do
not; everything else in it is new. -/
theorem deepCopy (h : g.Keeps s) (hv : s.HasValue v)
    (hFunctions : ∀ f, s.HoldsValue v (.function f) → g.Free s (.function f)) :
    g.Advances s (s.deepCopy v).2 ∧ g.FreeValue (s.deepCopy v).2 (s.deepCopy v).1 := by
  have hGrown := s.grown_deepCopy v
  refine ⟨⟨hGrown, h.grown.trans hGrown, fun x hx => ?_, fun x hx y hy => ?_⟩, ?_⟩
  · exact (h.agrees x hx).trans (Store.agrees_deepCopy (h.grown.hasCell (g.made x hx)) v)
  · by_cases hOld : s.HasCell x
    · rw [← (Store.agrees_deepCopy hOld v).links_eq] at hy
      exact (h.closed x hx y hy).mono hGrown
    · have hHas := Store.hasCell_of_mem_links hy
      have hCopied : ∀ d : Container, d.cell = x →
          g.FreeValues (s.deepCopy v).2 ((s.deepCopy v).2.contents d) := by
        rintro d rfl
        obtain ⟨c, hCopy⟩ := Store.exists_copyOf h.closedStore hv hHas hOld
        rw [Store.contents_deepCopy h.closedStore hv hCopy]
        intro w hw
        obtain ⟨original, hOriginal, rfl⟩ := List.mem_map.1 hw
        have hReached := hCopy.mem_reached h.closedStore hv
        exact h.freeValue_renameIn hv hFunctions (.inr ⟨c, hReached, hOriginal⟩)
      cases x with
      | list cell => exact freeValues_iff_links.1 (hCopied (.list cell) rfl) y hy
      | record cell => exact freeValues_iff_links.1 (hCopied (.record cell) rfl) y hy
      | function cell => exact (hOld hHas).elim
      | scope cell => exact (hOld hHas).elim
      | names cell => exact (hOld hHas).elim
  · rw [Store.deepCopy_eq_renameIn h.closedStore hv]
    exact h.freeValue_renameIn hv hFunctions (.inl rfl)

end Keeps

end Guard

end Metagen
