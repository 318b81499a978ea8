import Metagen.Proofs.Bindings
import Metagen.Proofs.Value.Reached
import Mathlib.Logic.Relator

/-! What a deep copy makes. Copying meets the containers in a value one by one, and gives each of
them the next cell of its kind. When it has come to its end, it has met exactly the containers that
can be reached, and each new cell holds what the old one holds, with every container that was met
replaced by its copy. While something is being copied this is true of all cells but those whose
contents are on their way. -/

namespace Metagen

theorem Value.eq_of_container? {v w : Value} {c : Container} (hv : v.container? = some c)
    (hw : w.container? = some c) : v = w := by
  cases v <;> cases hv <;> cases w <;> cases hw <;> rfl

namespace Store

def listCells (cs : List Container) : List Nat :=
  cs.filterMap fun | .list cell => some cell | .record _ => none

def recordCells (cs : List Container) : List Nat :=
  cs.filterMap fun | .record cell => some cell | .list _ => none

/-- The value that stands for `v` in a copy whose lists and records are those given, their new cells
following the old ones in the same order. -/
def renamed (s : Store) (lists records : List Nat) : Value → Value
  | .list cell =>
    match lists.idxOf? cell with
    | some i => .list (s.lists.size + i)
    | none => .list cell
  | .record cell =>
    match records.idxOf? cell with
    | some i => .record (s.records.size + i)
    | none => .record cell
  | v => v

/-- The containers that are made when some containers are copied. -/
inductive CopyOf (s : Store) (cs : List Container) : Container → Container → Prop where
  | list {i a b : Nat} (h : (listCells cs)[i]? = some a) (hNew : b = s.lists.size + i) :
      CopyOf s cs (.list a) (.list b)
  | record {i a b : Nat} (h : (recordCells cs)[i]? = some a) (hNew : b = s.records.size + i) :
      CopyOf s cs (.record a) (.record b)

/-- The value that stands for a value when some containers are copied. -/
def renameIn (s : Store) (cs : List Container) : Value → Value :=
  s.renamed (listCells cs) (recordCells cs)

variable {s : Store} {v : Value} {cs all : List Container} {c d : Container}

/-- A list is one of some containers exactly if its number is among those of their lists. -/
theorem mem_listCells_iff (cs : List Container) (cell : Nat) :
    cell ∈ listCells cs ↔ .list cell ∈ cs := by
  rw [listCells, List.mem_filterMap]
  constructor
  · rintro ⟨a | a, ha, hEq⟩
    · cases hEq
      exact ha
    · cases hEq
  · exact fun h => ⟨_, h, rfl⟩

/-- A record is one of some containers exactly if its number is among those of their records. -/
theorem mem_recordCells_iff (cs : List Container) (cell : Nat) :
    cell ∈ recordCells cs ↔ .record cell ∈ cs := by
  rw [recordCells, List.mem_filterMap]
  constructor
  · rintro ⟨a | a, ha, hEq⟩
    · cases hEq
    · cases hEq
      exact ha
  · exact fun h => ⟨_, h, rfl⟩

theorem nodup_listCells (h : cs.Nodup) : (listCells cs).Nodup := by
  refine List.Nodup.filterMap ?_ h
  rintro (a | a) (b | b) cell ha hb <;> cases ha <;> cases hb
  rfl

theorem nodup_recordCells (h : cs.Nodup) : (recordCells cs).Nodup := by
  refine List.Nodup.filterMap ?_ h
  rintro (a | a) (b | b) cell ha hb <;> cases ha <;> cases hb
  rfl

theorem CopyOf.mem (h : s.CopyOf cs c d) : c ∈ cs := by
  cases h with
  | list h => exact (mem_listCells_iff cs _).1 (List.mem_of_getElem? h)
  | record h => exact (mem_recordCells_iff cs _).1 (List.mem_of_getElem? h)

/-- Every copy has cells of its own. -/
theorem CopyOf.not_hasCell (h : s.CopyOf cs c d) : ¬ s.HasCell d.cell := by
  cases h with
  | list _ hNew => exact Nat.not_lt.2 (hNew ▸ Nat.le_add_right _ _)
  | record _ hNew => exact Nat.not_lt.2 (hNew ▸ Nat.le_add_right _ _)

/-- No two containers share a copy, since each list and each record is copied to a cell of its
own. -/
theorem copyOf_leftUnique (s : Store) (cs : List Container) : Relator.LeftUnique (s.CopyOf cs) := by
  intro c e d hc he
  cases hc with
  | list hc hNew =>
      cases he with
      | list he hSame =>
          rw [Nat.add_left_cancel (hNew.symm.trans hSame), he] at hc
          rw [Option.some.inj hc]
  | record hc hNew =>
      cases he with
      | record he hSame =>
          rw [Nat.add_left_cancel (hNew.symm.trans hSame), he] at hc
          rw [Option.some.inj hc]

/-- Containers and copies belong to each other one to one. -/
theorem copyOf_biUnique (s : Store) (hNodup : cs.Nodup) : Relator.BiUnique (s.CopyOf cs) := by
  refine ⟨copyOf_leftUnique s cs, ?_⟩
  intro c d e hd he
  cases hd with
  | list hd hNew =>
      cases he with
      | list he hSame =>
          have hAt := (List.getElem?_eq_some_iff.1 hd).1
          rw [hNew, hSame, (List.getElem?_inj hAt (nodup_listCells hNodup)).1 (hd.trans he.symm)]
  | record hd hNew =>
      cases he with
      | record he hSame =>
          have hAt := (List.getElem?_eq_some_iff.1 hd).1
          rw [hNew, hSame, (List.getElem?_inj hAt (nodup_recordCells hNodup)).1 (hd.trans he.symm)]

/-- Containers that are copied are renamed to their copies. -/
theorem container?_renameIn (h : v.container? = some c) (hc : c ∈ cs) :
    ∃ d, (s.renameIn cs v).container? = some d ∧ s.CopyOf cs c d := by
  cases v with
  | list cell =>
      obtain rfl := Option.some.inj h
      have hMem := (mem_listCells_iff cs cell).2 hc
      obtain ⟨i, hi⟩ := Option.isSome_iff_exists.1 (List.isSome_idxOf?.2 hMem)
      refine ⟨.list (s.lists.size + i), ?_, .list ?_ rfl⟩
      · rw [renameIn, renamed, hi]
        rfl
      · obtain ⟨hLess, hAt, -⟩ := List.idxOf?_eq_some_iff.1 hi
        exact List.getElem?_eq_some_iff.2 ⟨hLess, by simpa using hAt⟩
  | record cell =>
      obtain rfl := Option.some.inj h
      have hMem := (mem_recordCells_iff cs cell).2 hc
      obtain ⟨i, hi⟩ := Option.isSome_iff_exists.1 (List.isSome_idxOf?.2 hMem)
      refine ⟨.record (s.records.size + i), ?_, .record ?_ rfl⟩
      · rw [renameIn, renamed, hi]
        rfl
      · obtain ⟨hLess, hAt, -⟩ := List.idxOf?_eq_some_iff.1 hi
        exact List.getElem?_eq_some_iff.2 ⟨hLess, by simpa using hAt⟩
  | _ => cases h

/-- A value that is no container is its own copy. -/
theorem renameIn_of_plain (h : v.container? = none) : s.renameIn cs v = v := by
  cases v with
  | list cell => cases h
  | record cell => cases h
  | _ => rfl

/-- The container is the one with this number among those of its kind. -/
def Nth (cs : List Container) (i : Nat) : Container → Prop
  | .list cell => (listCells cs)[i]? = some cell
  | .record cell => (recordCells cs)[i]? = some cell

/-- A container that was met has a number. -/
theorem exists_nth (h : c ∈ cs) : ∃ i, Nth cs i c := by
  cases c with
  | list cell => exact List.getElem?_of_mem ((mem_listCells_iff cs cell).2 h)
  | record cell => exact List.getElem?_of_mem ((mem_recordCells_iff cs cell).2 h)

/-- A container that is met once has one number. -/
theorem Nth.unique {i j : Nat} (hNodup : cs.Nodup) (hi : Nth cs i c) (hj : Nth cs j c) :
    i = j := by
  cases c with
  | list cell =>
      have hLess := (List.getElem?_eq_some_iff.1 hi).1
      exact (List.getElem?_inj hLess (nodup_listCells hNodup)).1 (hi.trans hj.symm)
  | record cell =>
      have hLess := (List.getElem?_eq_some_iff.1 hi).1
      exact (List.getElem?_inj hLess (nodup_recordCells hNodup)).1 (hi.trans hj.symm)

/-- Containers keep their numbers when others follow. -/
theorem Nth.mono {i : Nat} (h : Nth cs i c) (hMore : cs <+: all) : Nth all i c := by
  obtain ⟨more, rfl⟩ := hMore
  cases c with
  | list cell =>
      rw [Nth, listCells, List.filterMap_append]
      exact (List.getElem?_append_left (List.getElem?_eq_some_iff.1 h).1).trans h
  | record cell =>
      rw [Nth, recordCells, List.filterMap_append]
      exact (List.getElem?_append_left (List.getElem?_eq_some_iff.1 h).1).trans h

theorem CopyOf.mono (h : s.CopyOf cs c d) (hMore : cs <+: all) : s.CopyOf all c d := by
  cases h with
  | @list i a b h hNew => exact .list (Nth.mono (c := .list a) h hMore) hNew
  | @record i a b h hNew => exact .record (Nth.mono (c := .record a) h hMore) hNew

/-- What stands for a container is its copy. -/
theorem renameIn_eq (hNodup : cs.Nodup) (h : s.CopyOf cs c d) {w : Value}
    (hv : v.container? = some c) (hw : w.container? = some d) : s.renameIn cs v = w := by
  obtain ⟨e, he, hCopy⟩ := container?_renameIn (s := s) hv h.mem
  obtain rfl := (copyOf_biUnique s hNodup).2 h hCopy
  exact Value.eq_of_container? he hw

end Store

namespace Copying

open Store

variable {s : Store} {made made' last : Copying} {v : Value} {vs ws : List Value}
  {all : List Container} {c d : Container}

/-- The containers that have been met. -/
def met (made : Copying) : List Container := made.copies.map (·.1)

/-- Each container that has been met has one new cell, in the order in which they were met. -/
structure SoundCopying (s : Store) (made : Copying) : Prop where
  nodup : made.met.Nodup
  has : ∀ c ∈ made.met, s.HasCell c.cell
  lists : made.lists.size = (listCells made.met).length
  records : made.records.size = (recordCells made.met).length
  copies : ∀ e ∈ made.copies, ∃ d, e.2.container? = some d ∧ s.CopyOf made.met e.1 d

/-- The new cell with a number holds what a container holds, with copies of those containers that
are met in the end. -/
def HoldsCopy (s : Store) (all : List Container) (made : Copying) (i : Nat) : Container → Prop
  | .list cell => made.lists[i]? = some ((s.listAt cell).map (s.renameIn all))
  | .record cell => made.records[i]? = some ((s.recordAt cell).map (s.renameIn all))

/-- The cell of a container has been filled. -/
def Filled (s : Store) (all : List Container) (made : Copying) (c : Container) : Prop :=
  ∀ i, Nth made.met i c → made.HoldsCopy s all i c

/-- The number of a container among those of its kind is less than their count. -/
theorem SoundCopying.lt_count (h : made.SoundCopying s) {i : Nat} (hAt : Nth made.met i c) :
    i < made.count c := by
  cases c with
  | list cell =>
      rw [count, h.lists]
      exact (List.getElem?_eq_some_iff.1 hAt).1
  | record cell =>
      rw [count, h.records]
      exact (List.getElem?_eq_some_iff.1 hAt).1

/-- New containers are met, and all cells stay as they are that have been made before. -/
structure MeetsMore (made made' : Copying) : Prop where
  met : made.met <+: made'.met
  lists : ∀ i < made.lists.size, made'.lists[i]? = made.lists[i]?
  records : ∀ i < made.records.size, made'.records[i]? = made.records[i]?

theorem MeetsMore.refl (made : Copying) : made.MeetsMore made :=
  ⟨List.prefix_rfl, fun _ _ => rfl, fun _ _ => rfl⟩

theorem size_le_of_getElem? {α : Type} {xs ys : Array α} (h : ∀ i < xs.size, ys[i]? = xs[i]?) :
    xs.size ≤ ys.size := by
  by_contra hLess
  have hLast := h ys.size (Nat.not_le.1 hLess)
  rw [Array.getElem?_eq_none (Nat.le_refl _)] at hLast
  exact absurd hLast.symm (by simpa using hLess)

theorem MeetsMore.trans (h : made.MeetsMore made') (h' : made'.MeetsMore last) :
    made.MeetsMore last where
  met := h.met.trans h'.met
  lists i hi :=
    (h'.lists i (Nat.lt_of_lt_of_le hi (size_le_of_getElem? h.lists))).trans (h.lists i hi)
  records i hi :=
    (h'.records i (Nat.lt_of_lt_of_le hi (size_le_of_getElem? h.records))).trans (h.records i hi)

/-- Cells that have been filled stay filled. -/
theorem Filled.mono (h : made.Filled s all c) (hSound : made.SoundCopying s)
    (hLast : last.SoundCopying s)
    (hGrows : made.MeetsMore last) (hc : c ∈ made.met) : last.Filled s all c := by
  intro i hi
  obtain ⟨j, hj⟩ := exists_nth hc
  obtain rfl := hi.unique hLast.nodup (hj.mono hGrows.met)
  have hLess := hSound.lt_count hj
  cases c with
  | list cell => exact (hGrows.lists i hLess).trans (h i hj)
  | record cell => exact (hGrows.records i hLess).trans (h i hj)

/-- What has been made once some values have been copied. -/
structure Copies (s : Store) (vs : List Value) (made : Copying) (ws : List Value)
    (made' : Copying) : Prop where
  sound : made'.SoundCopying s
  grows : made.MeetsMore made'
  roots : ∀ v ∈ vs, ∀ c, v.container? = some c → c ∈ made'.met
  inside : ∀ c ∈ made'.met, c ∉ made.met → ∀ x ∈ s.inside c, x ∈ made'.met
  /-- Only what can be reached from the values has been met. -/
  reached : ∀ P : Container → Prop, (∀ v ∈ vs, ∀ c, v.container? = some c → P c) →
    (∀ c, P c → ∀ x ∈ s.inside c, P x) → ∀ c ∈ made'.met, c ∉ made.met → P c
  values : ∀ all : List Container, all.Nodup → made'.met <+: all → ws = vs.map (s.renameIn all)
  filled : ∀ all : List Container, all.Nodup → made'.met <+: all →
    ∀ c ∈ made'.met, c ∉ made.met → made'.Filled s all c

/-- Nothing to copy. -/
theorem Copies.nil (hSound : made.SoundCopying s) : Copies s [] made [] made where
  sound := hSound
  grows := .refl made
  roots := by simp
  inside c hc hNot := absurd hc hNot
  reached _ _ _ c hc hNot := absurd hc hNot
  values _ _ _ := rfl
  filled _ _ _ c hc hNot := absurd hc hNot

/-- A value that is no container. -/
theorem Copies.plain (hSound : made.SoundCopying s) (hv : v.container? = none) :
    Copies s [v] made [v] made :=
  { Copies.nil hSound with
    roots := by simp [hv]
    reached := fun _ _ _ c hc hNot => absurd hc hNot
    values := fun all _ _ => by rw [List.map_singleton, renameIn_of_plain hv] }

/-- A container that has been met before. -/
theorem Copies.again (hSound : made.SoundCopying s) (hv : v.container? = some c) {w : Value}
    (h : (c, w) ∈ made.copies) : Copies s [v] made [w] made :=
  { Copies.nil hSound with
    roots := by
      intro u hu e he
      obtain rfl := List.mem_singleton.1 hu
      obtain rfl := Option.some.inj (hv.symm.trans he)
      exact List.mem_map_of_mem h
    reached := fun _ _ _ c hc hNot => absurd hc hNot
    values := by
      intro all hNodup hAll
      obtain ⟨d, hd, hCopy⟩ := hSound.copies _ h
      rw [List.map_singleton, renameIn_eq hNodup (hCopy.mono hAll) hv hd] }

/-- One after the other. -/
theorem Copies.append {us xs : List Value} (h : Copies s vs made ws made')
    (h' : Copies s us made' xs last) : Copies s (vs ++ us) made (ws ++ xs) last where
  sound := h'.sound
  grows := h.grows.trans h'.grows
  roots v hv c hc := by
    rcases List.mem_append.1 hv with hFirst | hSecond
    · exact h'.grows.met.subset (h.roots v hFirst c hc)
    · exact h'.roots v hSecond c hc
  inside c hc hNew x hx := by
    by_cases hMet : c ∈ made'.met
    · exact h'.grows.met.subset (h.inside c hMet hNew x hx)
    · exact h'.inside c hc hMet x hx
  reached P hRoots hInside c hc hNew := by
    by_cases hMet : c ∈ made'.met
    · exact h.reached P (fun v hv => hRoots v (List.mem_append_left _ hv)) hInside c hMet hNew
    · exact h'.reached P (fun v hv => hRoots v (List.mem_append_right _ hv)) hInside c hc hMet
  values all hNodup hAll := by
    rw [List.map_append, ← h.values all hNodup (h'.grows.met.trans hAll),
      ← h'.values all hNodup hAll]
  filled all hNodup hAll c hc hNew := by
    by_cases hMet : c ∈ made'.met
    · exact (h.filled all hNodup (h'.grows.met.trans hAll) c hMet hNew).mono h.sound h'.sound
        h'.grows hMet
    · exact h'.filled all hNodup hAll c hc hMet

theorem met_start (made : Copying) (c : Container) (copy : Value) :
    (made.start c copy).met = made.met ++ [c] := by
  cases c <;> simp [start, met]

/-- The container that is met next. -/
theorem nth_count (h : made.SoundCopying s) (c : Container) :
    Nth (made.met ++ [c]) (made.count c) c := by
  cases c with
  | list cell =>
      rw [Nth, listCells, List.filterMap_append, count, h.lists]
      exact List.getElem?_concat_length
  | record cell =>
      rw [Nth, recordCells, List.filterMap_append, count, h.records]
      exact List.getElem?_concat_length

/-- A new copy is a container of the same kind in the next cell that is free. -/
theorem newCopy_copyOf (h : made.SoundCopying s) (c : Container) :
    ∃ d, (s.newCopy c (made.count c)).container? = some d ∧ s.CopyOf (made.met ++ [c]) c d := by
  have hNth := nth_count h c
  cases c with
  | list cell => exact ⟨_, rfl, .list hNth rfl⟩
  | record cell => exact ⟨_, rfl, .record hNth rfl⟩

/-- Starting the copy of a container that was not met keeps copying sound: the copy gets the next
free number. -/
theorem soundCopying_start (h : made.SoundCopying s) (hNew : c ∉ made.met) (hc : s.HasCell c.cell) :
    (made.start c (s.newCopy c (made.count c))).SoundCopying s := by
  have hMet := met_start made c (s.newCopy c (made.count c))
  refine ⟨?_, ?_, ?_, ?_, ?_⟩
  · rw [hMet, ← List.concat_eq_append]
    exact h.nodup.concat hNew
  · rw [hMet]
    intro e he
    rcases List.mem_append.1 he with hOld | hSelf
    · exact h.has e hOld
    · exact List.mem_singleton.1 hSelf ▸ hc
  · rw [hMet, listCells, List.filterMap_append]
    cases c <;> simp [start, h.lists, listCells]
  · rw [hMet, recordCells, List.filterMap_append]
    cases c <;> simp [start, h.records, recordCells]
  · rw [hMet]
    have hCopies : (made.start c (s.newCopy c (made.count c))).copies =
        made.copies ++ [(c, s.newCopy c (made.count c))] := by cases c <;> rfl
    intro e he
    rw [hCopies] at he
    rcases List.mem_append.1 he with hOld | hSelf
    · obtain ⟨d, hd, hCopy⟩ := h.copies e hOld
      exact ⟨d, hd, hCopy.mono (List.prefix_append _ _)⟩
    · obtain rfl := List.mem_singleton.1 hSelf
      exact newCopy_copyOf h c

/-- Starting a copy only adds to what was met. -/
theorem meetsMore_start (made : Copying) (c : Container) (copy : Value) :
    made.MeetsMore (made.start c copy) := by
  refine ⟨met_start made c copy ▸ List.prefix_append _ _, fun i hi => ?_, fun i hi => ?_⟩
  · cases c with
    | list cell => exact Array.getElem?_push_lt hi ▸ (Array.getElem?_eq_getElem hi).symm
    | record cell => rfl
  · cases c with
    | list cell => rfl
    | record cell => exact Array.getElem?_push_lt hi ▸ (Array.getElem?_eq_getElem hi).symm

theorem met_fill (s : Store) (c : Container) (i : Nat) (ws : List Value) (made : Copying) :
    (s.fill c i ws made).met = made.met := by
  cases c <;> rfl

/-- Filling a copy with values keeps copying sound. -/
theorem SoundCopying.fill (h : made.SoundCopying s) (c : Container) (i : Nat) (ws : List Value) :
    (s.fill c i ws made).SoundCopying s := by
  cases c with
  | list cell => exact { h with lists := Array.size_setIfInBounds.trans h.lists }
  | record cell => exact { h with records := Array.size_setIfInBounds.trans h.records }

/-- What is filled has been made later than everything that was there. -/
theorem MeetsMore.fill (h : made.MeetsMore made') (s : Store) (c : Container) (ws : List Value) :
    made.MeetsMore (s.fill c (made.count c) ws made') := by
  cases c with
  | list cell =>
      refine { h with lists := fun i hi => ?_ }
      exact (Array.getElem?_setIfInBounds_ne (Nat.ne_of_gt hi)).trans (h.lists i hi)
  | record cell =>
      refine { h with records := fun i hi => ?_ }
      exact (Array.getElem?_setIfInBounds_ne (Nat.ne_of_gt hi)).trans (h.records i hi)

/-- Other cells are not changed. -/
theorem Filled.fill {i : Nat} (h : made.Filled s all d) (hAt : Nth made.met i c) (hNe : d ≠ c)
    (ws : List Value) : (s.fill c i ws made).Filled s all d := by
  rw [Filled, met_fill]
  intro j hj
  have hHolds := h j hj
  cases c with
  | list cell =>
      cases d with
      | list other =>
          have hIndex : i ≠ j := by
            rintro rfl
            exact hNe (congrArg _ (Option.some.inj (hj.symm.trans hAt)))
          exact (Array.getElem?_setIfInBounds_ne hIndex).trans hHolds
      | record other => exact hHolds
  | record cell =>
      cases d with
      | list other => exact hHolds
      | record other =>
          have hIndex : i ≠ j := by
            rintro rfl
            exact hNe (congrArg _ (Option.some.inj (hj.symm.trans hAt)))
          exact (Array.getElem?_setIfInBounds_ne hIndex).trans hHolds

/-- The names of a record are kept. -/
theorem ofList_names_zip (fields : Bindings Value) (f : Value → Value) :
    Bindings.ofList (fields.names.zip (fields.values.map f)) = fields.map f := by
  have hEntries : fields.names.zip (fields.values.map f) = (fields.map f).entries := by
    rw [Bindings.names, entryNames, Bindings.values, List.map_map, List.zip_map']
    rfl
  rw [hEntries, Bindings.ofList_entries]

/-- The cell itself holds what has been copied. -/
theorem filled_fill {i : Nat} (h : made.SoundCopying s) (hAt : Nth made.met i c) :
    (s.fill c i ((s.contents c).map (s.renameIn all)) made).Filled s all c := by
  rw [Filled, met_fill]
  intro j hj
  obtain rfl := hj.unique h.nodup hAt
  have hLess := h.lt_count hAt
  cases c with
  | list cell =>
      refine (Array.getElem?_setIfInBounds_self_of_lt hLess).trans ?_
      rw [contents, ← Array.toList_map]
  | record cell =>
      refine (Array.getElem?_setIfInBounds_self_of_lt hLess).trans ?_
      rw [contents, ofList_names_zip]

/-- A container is copied with everything in it: its cell is made before, and filled after. -/
theorem Copies.container (hSound : made.SoundCopying s) (hv : v.container? = some c)
    (hc : s.HasCell c.cell)
    (hNew : c ∉ made.met)
    (h : Copies s (s.contents c) (made.start c (s.newCopy c (made.count c))) ws made') :
    Copies s [v] made [s.newCopy c (made.count c)] (s.fill c (made.count c) ws made') := by
  have hMet := met_start made c (s.newCopy c (made.count c))
  have hFinal := met_fill s c (made.count c) ws made'
  have hPrefix : made.met ++ [c] <+: made'.met := hMet ▸ h.grows.met
  have hHere : c ∈ made'.met := hPrefix.subset (List.mem_append_right _ List.mem_cons_self)
  have hAt : Nth made'.met (made.count c) c := (nth_count hSound c).mono hPrefix
  have hInside : ∀ x ∈ s.inside c, x ∈ made'.met := by
    intro x hx
    obtain ⟨u, hu, hux⟩ := List.mem_filterMap.1 hx
    exact h.roots u hu x hux
  have hLater : ∀ e, e ∉ made.met → e ≠ c →
      e ∉ (made.start c (s.newCopy c (made.count c))).met := by
    intro e hOld hNe
    rw [hMet]
    simp [hOld, hNe]
  refine ⟨h.sound.fill .., ((meetsMore_start ..).trans h.grows).fill .., ?_, ?_, ?_, ?_, ?_⟩
  · intro u hu e he
    obtain rfl := List.mem_singleton.1 hu
    obtain rfl := Option.some.inj (hv.symm.trans he)
    rwa [hFinal]
  · rw [hFinal]
    intro e he hNot
    by_cases hNe : e = c
    · exact hNe ▸ hInside
    · exact h.inside e he (hLater e hNot hNe)
  · rw [hFinal]
    intro P hRoots hStep e he hNot
    have hSelf : P c := hRoots v List.mem_cons_self c hv
    by_cases hNe : e = c
    · exact hNe ▸ hSelf
    · refine h.reached P (fun u hu x hx => ?_) hStep e he (hLater e hNot hNe)
      exact hStep c hSelf x (List.mem_filterMap.2 ⟨u, hu, hx⟩)
  · rw [hFinal]
    intro all hNodup hAll
    obtain ⟨d, hd, hCopy⟩ := newCopy_copyOf hSound c
    rw [List.map_singleton, renameIn_eq hNodup (hCopy.mono (hPrefix.trans hAll)) hv hd]
  · rw [hFinal]
    intro all hNodup hAll e he hNot
    by_cases hNe : e = c
    · subst hNe
      rw [h.values all hNodup hAll]
      exact filled_fill h.sound hAt
    · exact (h.filled all hNodup hAll e he (hLater e hNot hNe)).fill hAt hNe ws

variable {copy : Value → Copying → Option (Value × Copying)} {depth : Nat}

/-- Values are copied one after the other, if each of them can be copied while there is room for
the containers that have not been met. -/
theorem copies_copyEach
    (hCopy : ∀ v made, made.SoundCopying s → s.HasValue v →
      s.nestingBound ≤ made.met.length + depth →
      ∃ w made', copy v made = some (w, made') ∧ Copies s [v] made [w] made')
    (hSound : made.SoundCopying s) (hvs : ∀ v ∈ vs, s.HasValue v)
    (hDepth : s.nestingBound ≤ made.met.length + depth) :
    ∃ ws made', copyEach copy vs made = some (ws, made') ∧ Copies s vs made ws made' := by
  induction vs generalizing made with
  | nil => exact ⟨[], made, rfl, .nil hSound⟩
  | cons v rest ih =>
      obtain ⟨w, middle, hFirst, hCopies⟩ :=
        hCopy v made hSound (hvs v List.mem_cons_self) hDepth
      have hMore : made.met.length ≤ middle.met.length := hCopies.grows.met.length_le
      obtain ⟨ws, last, hRest, hOthers⟩ := ih hCopies.sound
        (fun u hu => hvs u (List.mem_cons_of_mem _ hu)) (by omega)
      refine ⟨w :: ws, last, ?_, hCopies.append hOthers⟩
      rw [copyEach, hFirst]
      exact congrArg (Option.bind · _) hRest

/-- Copying comes to its end. By induction on how deep it may still go; every container that is met
for the first time uses up one level, and there are only so many. -/
theorem copies_copyWith (hClosed : s.Closed) (depth : Nat) (v : Value) (made : Copying)
    (hSound : made.SoundCopying s) (hv : s.HasValue v)
    (hDepth : s.nestingBound ≤ made.met.length + depth) :
    ∃ w made', s.copyWith depth v made = some (w, made') ∧ Copies s [v] made [w] made' := by
  induction depth generalizing v made with
  | zero =>
      have hRoom := length_lt_nestingBound hSound.nodup hSound.has
      omega
  | succ depth ih =>
      rw [copyWith]
      cases hContainer : v.container? with
      | none => exact ⟨v, made, rfl, .plain hSound hContainer⟩
      | some c =>
          cases hLookup : made.copies.lookup c with
          | some copy =>
              obtain ⟨first, later, hCopies, -⟩ := List.lookup_eq_some_iff.1 hLookup
              refine ⟨copy, made, by simp only [hLookup], .again hSound hContainer ?_⟩
              rw [hCopies]
              exact List.mem_append_right _ List.mem_cons_self
          | none =>
              have hNew : c ∉ made.met := by
                intro hMet
                obtain ⟨e, he, rfl⟩ := List.mem_map.1 hMet
                simpa using List.lookup_eq_none_iff.1 hLookup e he
              have hHas := hv _ (Value.cell?_of_container? hContainer)
              have hStart := soundCopying_start hSound hNew hHas
              have hLength := congrArg List.length
                (met_start made c (s.newCopy c (made.count c)))
              rw [List.length_append, List.length_singleton] at hLength
              obtain ⟨ws, made', hRun, hCopies⟩ := copies_copyEach ih hStart
                (fun u hu x hx => hClosed _ _ (mem_links_of_mem_contents hu hx)) (by omega)
              refine ⟨_, _, ?_, .container hSound hContainer hHas hNew hCopies⟩
              simp only [hLookup, hRun]
              rfl

/-- Room that is not used makes no difference. -/
theorem copyEach_of_imp {more : Value → Copying → Option (Value × Copying)}
    (hCopy : ∀ v made result, copy v made = some result → more v made = some result)
    {result : List Value × Copying} (h : copyEach copy vs made = some result) :
    copyEach more vs made = some result := by
  induction vs generalizing made result with
  | nil => exact h
  | cons v rest ih =>
      obtain ⟨⟨w, middle⟩, hFirst, hRest⟩ := Option.bind_eq_some_iff.1 h
      obtain ⟨⟨ws, last⟩, hOthers, hResult⟩ := Option.bind_eq_some_iff.1 hRest
      rw [copyEach, hCopy v made _ hFirst]
      exact Option.bind_eq_some_iff.2
        ⟨_, rfl, Option.bind_eq_some_iff.2 ⟨_, ih hOthers, hResult⟩⟩

/-- A copy that ends within some depth is the same with every greater bound. -/
theorem copyWith_of_le {v : Value} {more : Nat} {result : Value × Copying}
    (h : s.copyWith depth v made = some result) (hMore : depth ≤ more) :
    s.copyWith more v made = some result := by
  induction depth generalizing v made result more with
  | zero => cases h
  | succ depth ih =>
      obtain ⟨more, rfl⟩ := Nat.exists_eq_add_of_le' (Nat.le_trans (Nat.succ_pos depth) hMore)
      have hLess : depth ≤ more := Nat.le_of_succ_le_succ hMore
      rw [copyWith] at h ⊢
      cases hContainer : v.container? with
      | none =>
          rw [hContainer] at h
          exact h
      | some c =>
          rw [hContainer] at h
          cases hLookup : made.copies.lookup c with
          | some copy =>
              simp only [hLookup] at h ⊢
              exact h
          | none =>
              simp only [hLookup] at h ⊢
              obtain ⟨inner, hEach, hFill⟩ := Option.bind_eq_some_iff.1 h
              have hMoreEach := copyEach_of_imp (fun _ _ _ hSome => ih hSome hLess) hEach
              exact Option.bind_eq_some_iff.2 ⟨inner, hMoreEach, hFill⟩

end Copying

namespace Store

variable {s : Store} {v : Value} {c : Container}

/-- The containers in a value, in the order in which a copy meets them. -/
def met (s : Store) (v : Value) : List Container := (s.copied v).2.met

/-- Copying comes to an end within as many rounds as there are containers, as each of them is
entered once. -/
theorem exists_copyWith (hClosed : s.Closed) (hv : s.HasValue v) :
    ∃ w made, s.copyWith s.nestingBound v {} = some (w, made) ∧
      Copying.Copies s [v] {} [w] made :=
  Copying.copies_copyWith hClosed s.nestingBound v {}
    ⟨List.nodup_nil, by simp [Copying.met], rfl, rfl, by simp⟩ hv (Nat.le_add_left _ _)

/-- Copying comes to its end under every bound that is high enough, and always in the same way. -/
theorem copyWith_eq_some (hClosed : s.Closed) (hv : s.HasValue v) {depth : Nat}
    (hDepth : s.nestingBound ≤ depth) : s.copyWith depth v {} = some (s.copied v) := by
  obtain ⟨w, made, hRun, -⟩ := exists_copyWith hClosed hv
  rw [copied, hRun]
  exact Copying.copyWith_of_le hRun hDepth

theorem copies_copied (hClosed : s.Closed) (hv : s.HasValue v) :
    Copying.Copies s [v] {} [(s.copied v).1] (s.copied v).2 := by
  obtain ⟨w, made, hRun, hCopies⟩ := exists_copyWith hClosed hv
  rw [copied, hRun]
  exact hCopies

theorem nodup_met (hClosed : s.Closed) (hv : s.HasValue v) : (s.met v).Nodup :=
  (copies_copied hClosed hv).sound.nodup

/-- A copy meets the containers that can be reached. -/
theorem mem_met_iff (hClosed : s.Closed) (hv : s.HasValue v) : c ∈ s.met v ↔ c ∈ s.reached v := by
  have hCopies := copies_copied hClosed hv
  constructor
  · intro hc
    refine hCopies.reached (· ∈ s.reached v) (fun w hw d hd => ?_) (fun d hd x hx => ?_) c hc
      List.not_mem_nil
    · obtain rfl := List.mem_singleton.1 hw
      exact root_mem_reached hd
    · exact mem_reached_of_inside hClosed hv hd hx
  · refine fun hc => reached_induct (fun d hd => ?_) (fun d hd x hx => ?_) c hc
    · exact hCopies.roots v List.mem_cons_self d hd
    · exact hCopies.inside d hd List.not_mem_nil x hx

end Store

end Metagen
