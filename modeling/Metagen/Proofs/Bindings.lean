import Metagen.Bindings
import Mathlib.Data.List.Nodup

/-! Names that are bound one after the other: new names come behind the old ones, and what they are
bound to stays. -/

namespace Metagen

variable {α : Type}

theorem mem_entryNames_iff (entries : List (String × α)) (name : String) :
    name ∈ entryNames entries ↔ ∃ value, (name, value) ∈ entries := by
  simp [entryNames]

/-- A name that is new is bound behind all others. -/
theorem bindEntry_of_notMem {name : String} {entries : List (String × α)}
    (h : name ∉ entryNames entries) (value : α) :
    bindEntry name value entries = entries ++ [(name, value)] := by
  induction entries with
  | nil => rfl
  | cons entry rest ih =>
      obtain ⟨n, v⟩ := entry
      change name ∉ n :: entryNames rest at h
      rw [List.mem_cons, not_or] at h
      rw [bindEntry, if_neg (Ne.symm h.1), ih h.2, List.cons_append]

namespace Bindings

/-- A name is bound to nothing exactly if it is not among the bound names. -/
theorem get?_eq_none_iff (b : Bindings α) (name : String) :
    b.get? name = none ↔ name ∉ b.names := by
  rw [get?, names, mem_entryNames_iff, List.lookup_eq_none_iff]
  constructor
  · rintro h ⟨value, hEntry⟩
    simpa using h _ hEntry
  · intro h entry hEntry
    rw [bne_iff_ne]
    rintro rfl
    exact h ⟨entry.2, hEntry⟩

theorem exists_get?_iff (b : Bindings α) (name : String) :
    (∃ value, b.get? name = some value) ↔ name ∈ b.names := by
  rw [← not_iff_not, ← b.get?_eq_none_iff, Option.eq_none_iff_forall_ne_some, not_exists]

theorem mem_entries_of_get? {b : Bindings α} {name : String} {value : α}
    (h : b.get? name = some value) : (name, value) ∈ b.entries := by
  obtain ⟨first, later, hEntries, -⟩ := List.lookup_eq_some_iff.1 h
  rw [hEntries]
  exact List.mem_append_right _ List.mem_cons_self

/-- As names of bindings are distinct, an entry is found under its name, wherever it stands among
the others. -/
theorem get?_of_mem_entries {b : Bindings α} {name : String} {value : α}
    (h : (name, value) ∈ b.entries) : b.get? name = some value := by
  have hName : name ∈ b.names := (mem_entryNames_iff _ name).2 ⟨value, h⟩
  obtain ⟨other, hOther⟩ := (b.exists_get?_iff name).2 hName
  have hSame := List.inj_on_of_nodup_map b.nodup (mem_entries_of_get? hOther) h rfl
  cases hSame
  exact hOther

theorem mem_values_of_get? {b : Bindings α} {name : String} {value : α}
    (h : b.get? name = some value) : value ∈ b.values :=
  List.mem_map_of_mem (mem_entries_of_get? h)

@[simp] theorem names_erase (b : Bindings α) (name : String) :
    (b.erase name).names = b.names.filter (· ≠ name) := by
  have hName : ∀ n : String, decide (n ≠ name) = (n != name) := fun n => by
    rw [bne, beq_eq_decide, decide_not]
  simp only [names, erase, entryNames, List.filter_map, Function.comp_def, hName]

/-- Leaving out one name changes nothing that is bound to the others. -/
theorem get?_erase_of_ne (b : Bindings α) {name other : String} (h : other ≠ name) :
    (b.erase name).get? other = b.get? other := by
  have hEntries : ∀ entries : List (String × α),
      (entries.filter (·.1 != name)).lookup other = entries.lookup other := by
    intro entries
    induction entries with
    | nil => rfl
    | cons entry rest ih =>
        obtain ⟨n, v⟩ := entry
        by_cases hName : n = name
        · subst hName
          rw [List.filter_cons_of_neg (by simp), ih, List.lookup_cons, beq_false_of_ne h]
        · rw [List.filter_cons_of_pos (by simpa using hName), List.lookup_cons, List.lookup_cons,
            ih]
  exact hEntries b.entries

/-- Binding a value brings in that value and no other. -/
theorem mem_values_insert {b : Bindings α} {name : String} {value other : α}
    (h : other ∈ (b.insert name value).values) : other = value ∨ other ∈ b.values := by
  have hEntries : ∀ entries : List (String × α),
      other ∈ (bindEntry name value entries).map (·.2) →
        other = value ∨ other ∈ entries.map (·.2) := by
    intro entries
    induction entries with
    | nil => simp [bindEntry]
    | cons entry rest ih =>
        obtain ⟨n, v⟩ := entry
        by_cases hName : n = name
        · simp only [bindEntry, if_pos hName, List.map_cons, List.mem_cons]
          exact Or.imp_right .inr
        · simp only [bindEntry, if_neg hName, List.map_cons, List.mem_cons]
          rintro (hHead | hRest)
          · exact .inr (.inl hHead)
          · exact (ih hRest).imp_right .inr
  exact hEntries b.entries h

theorem mem_values_erase {b : Bindings α} {name : String} {other : α}
    (h : other ∈ (b.erase name).values) : other ∈ b.values :=
  (List.filter_sublist.map _).subset h

/-- Binding many names brings in the values they are bound to and no others. -/
theorem mem_values_foldl_insert (entries : List (String × α)) {b : Bindings α} {other : α}
    (h : other ∈ (entries.foldl (fun b entry => b.insert entry.1 entry.2) b).values) :
    other ∈ b.values ∨ other ∈ entries.map (·.2) := by
  induction entries generalizing b with
  | nil => exact .inl h
  | cons entry rest ih =>
      rw [List.map_cons, List.mem_cons]
      rcases ih h with hInsert | hRest
      · rcases mem_values_insert hInsert with hNew | hOld
        · exact .inr (.inl hNew)
        · exact .inl hOld
      · exact .inr (.inr hRest)

theorem mem_values_ofList {entries : List (String × α)} {other : α}
    (h : other ∈ (ofList entries).values) : other ∈ entries.map (·.2) :=
  (mem_values_foldl_insert entries h).resolve_left List.not_mem_nil

/-- Names that are new and distinct are bound behind the old ones, in order. -/
theorem entries_foldl_insert (entries : List (String × α)) {b : Bindings α}
    (h : (b.names ++ entryNames entries).Nodup) :
    (entries.foldl (fun b entry => b.insert entry.1 entry.2) b).entries = b.entries ++ entries := by
  induction entries generalizing b with
  | nil => exact (List.append_nil _).symm
  | cons entry rest ih =>
      obtain ⟨name, value⟩ := entry
      have hNew : name ∉ b.names := fun hOld =>
        (List.nodup_append.1 h).2.2 name hOld name List.mem_cons_self rfl
      have hEntries : (b.insert name value).entries = b.entries ++ [(name, value)] :=
        bindEntry_of_notMem hNew value
      have hNames : (b.insert name value).names = b.names ++ [name] := by
        rw [names_insert, if_neg hNew]
      rw [List.foldl_cons, ih, hEntries, List.append_assoc, List.singleton_append]
      rw [hNames, List.append_assoc]
      exact h

/-- Bindings are made again from their entries. -/
theorem ofList_entries (b : Bindings α) : ofList b.entries = b := by
  have hEntries : (ofList b.entries).entries = b.entries :=
    entries_foldl_insert (b := {}) b.entries b.nodup
  generalize ofList b.entries = made at hEntries
  obtain ⟨entries, hNodup⟩ := made
  subst hEntries
  rfl

end Bindings

end Metagen
