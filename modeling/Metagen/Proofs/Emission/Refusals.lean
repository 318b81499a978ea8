import Metagen.Proofs.Emission.Ownership
import Metagen.Proofs.Grouping
import Mathlib.Tactic.MkIffOfInductiveProp

/-! Requests that are refused. Enumerations, tables and overloads are checked before anything is
done, so that a refused request leaves no trace. What is wrong with them is said here without the
checks: each check finds something just when there is something to be found. -/

namespace Metagen.Emission

open Text Emitter

/-- The action fails just when something is wrong, and then leaves the emitter as it was. -/
structure Guarded (action : Emit Unit) (e : Emitter) (wrong : Prop) : Prop where
  refused : wrong → ∃ error, action e = .error error e
  accepted : ¬ wrong → ∃ e', action e = .ok () e'

/-- An action that looks for a fault, and can only fail if there is one. -/
theorem guarded_of_fault {action : Emit Unit} {e : Emitter} {wrong : Prop}
    {fault : Option EmissionError} (hWrong : fault = none ↔ ¬ wrong)
    (hFault : ∀ error, fault = some error → action e = .error error e)
    (hNone : fault = none → ∃ e', action e = .ok () e') : Guarded action e wrong where
  refused h := by
    cases fault with
    | none => exact absurd h (hWrong.1 rfl)
    | some error => exact ⟨error, hFault error rfl⟩
  accepted h := hNone (hWrong.2 h)

namespace Enumeration

/-- Something is wrong with the enumeration: it has no members, or two with one name. -/
@[mk_iff] inductive Faulty (d : Enumeration) : Prop where
  | empty (h : d.members = [])
  | repeated (h : ¬ (d.members.map (·.name)).Nodup)

/-- An enumeration passes its check exactly if nothing is wrong with it: it has members, and no two
of them have one name. -/
theorem fault?_eq_none_iff (d : Enumeration) : d.fault? = none ↔ ¬ d.Faulty := by
  rw [faulty_iff, fault?, ← firstRepeated_eq_none_iff]
  by_cases hEmpty : d.members = []
  · simp [hEmpty]
  · simp [hEmpty]

/-- An enumeration is refused exactly if it is faulty, and then nothing has changed. -/
theorem guarded (d : Enumeration) (e : Emitter) : Guarded (Emit.enumeration d) e d.Faulty := by
  apply guarded_of_fault d.fault?_eq_none_iff
  · intro error hFault
    unfold Emit.enumeration
    rw [hFault]
    rfl
  · intro hFault
    unfold Emit.enumeration
    rw [hFault]
    exact ⟨_, rfl⟩

end Enumeration

namespace Table

/-- Something is wrong with a row of the table: it has no members, or two with one name, or one with
a type although the table has a type. -/
@[mk_iff] inductive FaultyRow (t : Table) (row : TableRow) : Prop where
  | empty (h : row.members = [])
  | repeated (h : ¬ (row.members.map (·.name)).Nodup)
  | typed (hTable : t.type.isSome = true) (h : ∃ m ∈ row.members, m.type.isSome = true)

/-- Something is wrong with the table: it has no rows, rows with an index and rows without one, two
rows with one index, or a row with which something is wrong. -/
@[mk_iff] inductive Faulty (t : Table) : Prop where
  | empty (h : t.rows = [])
  | mixed (hIndexed : ∃ row ∈ t.rows, row.index.isSome = true)
      (hBare : ∃ row ∈ t.rows, row.index = none)
  | repeated (h : ¬ (t.rows.filterMap (·.index)).Nodup)
  | row (h : ∃ row ∈ t.rows, t.FaultyRow row)

/-- A row passes its check exactly if nothing is wrong with it: it has members, no two of one name,
and none with a type of its own if the table has one. -/
theorem rowFault?_eq_none_iff (t : Table) (row : TableRow) :
    t.rowFault? row = none ↔ ¬ t.FaultyRow row := by
  rw [faultyRow_iff, rowFault?, ← firstRepeated_eq_none_iff]
  by_cases hEmpty : row.members = []
  · simp [hEmpty]
  · cases firstRepeated (row.members.map (·.name)) with
    | some field => simp [hEmpty]
    | none =>
        by_cases hType : t.type.isSome = true
        · simp [hEmpty, hType]
        · simp [hEmpty, hType]

/-- Indices are missing in some of the rows only. -/
theorem mixed_iff (rows : List TableRow) :
    (!(rows.filterMap (·.index)).isEmpty && (rows.filterMap (·.index)).length != rows.length) =
        true ↔
      (∃ row ∈ rows, row.index.isSome = true) ∧ ∃ row ∈ rows, row.index = none := by
  rw [Bool.and_eq_true]
  apply and_congr
  · simp [List.filterMap_eq_nil_iff, Option.isSome_iff_ne_none]
  · rw [bne_iff_ne, ne_eq, List.length_filterMap_eq_countP, List.countP_eq_length]
    simp

/-- A table passes its check exactly if nothing is wrong with it: neither with its rows one by one
nor with their indexes. -/
theorem fault?_eq_none_iff (t : Table) : t.fault? = none ↔ ¬ t.Faulty := by
  rw [faulty_iff, fault?, ← firstRepeated_eq_none_iff, ← mixed_iff]
  by_cases hEmpty : t.rows = []
  · simp [hEmpty]
  · cases !(t.rows.filterMap (·.index)).isEmpty &&
        (t.rows.filterMap (·.index)).length != t.rows.length with
    | true => simp [hEmpty]
    | false =>
        cases firstRepeated (t.rows.filterMap (·.index)) with
        | some index => simp [hEmpty]
        | none => simp [hEmpty, rowFault?_eq_none_iff]

/-- A table is refused exactly if it is faulty, and then nothing has changed. -/
theorem guarded (t : Table) (e : Emitter) : Guarded (Emit.table t) e t.Faulty := by
  apply guarded_of_fault t.fault?_eq_none_iff
  · intro error hFault
    unfold Emit.table
    rw [hFault]
    rfl
  · intro hFault
    unfold Emit.table
    rw [hFault]
    exact ⟨_, rfl⟩

end Table

namespace Definition

/-- Something is wrong with an overload: the macro has no parameters, a key is none of them, a value
cannot be part of a name, another directive owns the macro, or the macro has been overloaded with
other parameters or keys. -/
@[mk_iff] inductive Faulty (d : Definition) (e : Emitter) : Prop where
  | noParams (h : d.params = none)
  | key (h : ∃ params ∈ d.params, ∃ entry ∈ d.overload, entry.1 ∉ params)
  | value (h : ∃ entry ∈ d.overload, entry.2 = "" ∨
      ∃ c ∈ entry.2.toList, ¬ (c.isAlphanum = true ∨ c = '_'))
  | owned (h : ∃ owner, e.owners.lookup d.name = some owner ∧ owner ≠ e.owner)
  | mismatch (h : ∃ group, e.overloads.lookup d.name = some group ∧
      (d.params ≠ some group.params ∨ d.overload.map (·.1) ≠ group.keys))

/-- A text can be no part of a name exactly if it is empty or has a character that no name has. -/
theorem isNamePart_eq_false_iff (value : String) : isNamePart value = false ↔
    value = "" ∨ ∃ c ∈ value.toList, ¬ (c.isAlphanum = true ∨ c = '_') := by
  rw [← Bool.not_eq_true, Preprocessing.isNamePart_iff]
  by_cases hEmpty : value = ""
  · simp [hEmpty]
  · simp [hEmpty, isIdentChar]

/-- A selecting value passes exactly if its parameter is one of the macro's and it can be part of a
name. -/
theorem overloadFault?_eq_none_iff (name : String) (params : List String)
    (entry : String × String) : overloadFault? name params entry = none ↔
      entry.1 ∈ params ∧ isNamePart entry.2 = true := by
  obtain ⟨key, value⟩ := entry
  by_cases hKey : key ∈ params
  · cases hValue : isNamePart value with
    | true => simp [overloadFault?, hKey, hValue]
    | false => simp [overloadFault?, hKey, hValue]
  · simp [overloadFault?, hKey]

/-- Overloads can be dispatched if nothing is wrong with their keys and values. -/
theorem isOverload_iff (d : Definition) : d.IsOverload ↔ d.overload ≠ [] ∧ ∃ params,
    d.params = some params ∧ ∀ entry ∈ d.overload,
      entry.1 ∈ params ∧ isNamePart entry.2 = true := by
  constructor
  · intro h
    exact ⟨h.overload_ne, h.sound⟩
  · rintro ⟨hOverload, params, hParams, hEntries⟩
    refine ⟨hOverload, ?_⟩
    simpa [fault?, hOverload, hParams, overloadFault?_eq_none_iff] using hEntries

/-- A definition with keys that is no overload has something wrong with it, whatever has been
accepted before. -/
theorem faulty_of_not_isOverload {d : Definition} (hOverload : d.overload ≠ [])
    (h : ¬ d.IsOverload) (e : Emitter) : d.Faulty e := by
  by_contra hSound
  apply h
  rw [isOverload_iff]
  cases hParams : d.params with
  | none => exact absurd (.noParams hParams) hSound
  | some params =>
      refine ⟨hOverload, params, rfl, fun entry hEntry => ⟨?_, ?_⟩⟩
      · by_contra hKey
        exact hSound (.key ⟨params, hParams, entry, hEntry, hKey⟩)
      · by_contra hValue
        rw [Bool.not_eq_true, isNamePart_eq_false_iff] at hValue
        exact hSound (.value ⟨entry, hEntry, hValue⟩)

/-- With an overload that can be dispatched only the ledger can be at odds. -/
theorem IsOverload.faulty_iff {d : Definition} (h : d.IsOverload) (e : Emitter) : d.Faulty e ↔
    (∃ owner, e.ledger.ownerOf? d.name = some owner ∧ owner ≠ e.owner) ∨
      ∃ group, e.overloads.lookup d.name = some group ∧ group ≠ d.group := by
  obtain ⟨params, hParams, hEntries⟩ := h.sound
  have hGroup (group : OverloadGroup) : group ≠ d.group ↔
      d.params ≠ some group.params ∨ d.overload.map (·.1) ≠ group.keys := by
    obtain ⟨others, keys⟩ := group
    simp [Definition.group, hParams, @eq_comm _ others, @eq_comm _ keys]
    grind
  simp only [hGroup]
  constructor
  · rintro (hNone | ⟨others, hOthers, entry, hEntry, hKey⟩ | ⟨entry, hEntry, hValue⟩ | hOwned |
      hMismatch)
    · simp [hParams] at hNone
    · obtain rfl : others = params := by simpa [hParams, eq_comm] using hOthers
      exact absurd (hEntries entry hEntry).1 hKey
    · rw [← isNamePart_eq_false_iff, (hEntries entry hEntry).2] at hValue
      cases hValue
    · exact .inl hOwned
    · exact .inr hMismatch
  · rintro (hOwned | hMismatch)
    · exact .owned hOwned
    · exact .mismatch hMismatch

end Definition

theorem Answer.ofResult_eq_refused_iff {result : EStateM.Result EmissionError Emitter Unit}
    {error : EmissionError} {e : Emitter} :
    ofResult result = (.refused error, e) ↔ result = .error error e := by
  cases result with
  | ok _ _ => simp [ofResult]
  | error _ _ => simp [ofResult]

theorem Answer.ofResult_eq_done_iff {result : EStateM.Result EmissionError Emitter Unit}
    {e : Emitter} : ofResult result = (.done, e) ↔ result = .ok () e := by
  cases result with
  | ok _ _ => simp [ofResult]
  | error _ _ => simp [ofResult]

namespace Definition

/-- A definition that is an overload is refused exactly if it is faulty, and then nothing has
changed. -/
theorem IsOverload.guarded {d : Definition} (h : d.IsOverload) (e : Emitter) :
    Guarded (Emit.define d) e (d.Faulty e) := by
  have hDefines := h.defineOutcome e
  have hAnswer : (Request.define d).perform e = Answer.ofResult (Emit.define d e) := rfl
  rw [h.faulty_iff]
  generalize (Request.define d).perform e = answer at hDefines hAnswer
  cases hDefines with
  | owned owner hOwner hOther =>
      have hError := Answer.ofResult_eq_refused_iff.1 hAnswer.symm
      exact ⟨fun _ => ⟨_, hError⟩, fun hFree => absurd (.inl ⟨owner, hOwner, hOther⟩) hFree⟩
  | mismatch other hFree hGroup hOther =>
      have hError := Answer.ofResult_eq_refused_iff.1 hAnswer.symm
      exact ⟨fun _ => ⟨_, hError⟩, fun hAgrees => absurd (.inr ⟨other, hGroup, hOther⟩) hAgrees⟩
  | again hFree hGroup =>
      have hDone := Answer.ofResult_eq_done_iff.1 hAnswer.symm
      refine ⟨?_, fun _ => ⟨_, hDone⟩⟩
      rintro (⟨owner, hOwner, hOther⟩ | ⟨other, hOld, hOther⟩)
      · exact absurd (hFree owner hOwner) hOther
      · rw [hGroup, Option.some.injEq] at hOld
        exact absurd hOld.symm hOther
  | first hFree hGroup =>
      have hDone := Answer.ofResult_eq_done_iff.1 hAnswer.symm
      refine ⟨?_, fun _ => ⟨_, hDone⟩⟩
      rintro (⟨owner, hOwner, hOther⟩ | ⟨other, hOld, -⟩)
      · exact absurd (hFree owner hOwner) hOther
      · rw [hGroup] at hOld
        cases hOld

/-- Definitions without overload keys are never refused. -/
theorem guarded (d : Definition) (e : Emitter) :
    Guarded (Emit.define d) e (d.overload ≠ [] ∧ d.Faulty e) := by
  by_cases hOverload : d.overload = []
  · exact ⟨fun h => absurd hOverload h.1, fun _ => ⟨_, define_of_plain hOverload e⟩⟩
  · by_cases hSound : d.IsOverload
    · simpa [hOverload] using hSound.guarded e
    · cases hFault : d.fault? with
      | none => exact absurd ⟨hOverload, hFault⟩ hSound
      | some error =>
          refine ⟨fun _ => ⟨error, define_of_fault hFault e⟩, fun hNone => ?_⟩
          exact absurd ⟨hOverload, faulty_of_not_isOverload hOverload hSound e⟩ hNone

end Definition

/-- The last start or end of a directive comes right before these steps. -/
structure LastSteps (past steps : List Request) : Prop where
  past : ∀ r ∈ past.getLast?, ¬ r.Inner
  steps : ∀ r ∈ steps, r.Inner

/-- Requests are some that are past and the last ones, those since a directive has started or
ended. -/
theorem exists_lastSteps (requests : List Request) :
    ∃ past steps, requests = past ++ steps ∧ LastSteps past steps := by
  induction requests using List.reverseRecOn with
  | nil => exact ⟨[], [], rfl, by simp, by simp⟩
  | append_singleton requests r ih =>
      by_cases hInner : r.Inner
      · obtain ⟨past, steps, rfl, hPast, hSteps⟩ := ih
        refine ⟨past, steps ++ [r], List.append_assoc _ _ _, hPast, ?_⟩
        simpa [hInner, or_imp, forall_and] using hSteps
      · exact ⟨requests ++ [r], [], (List.append_nil _).symm, by simpa using hInner, by simp⟩

/-- Where a directive starts or ends, no macro is overloaded. -/
theorem Request.overloads_perform_of_not_inner {r : Request} (h : ¬ r.Inner) (e : Emitter) :
    (r.perform e).2.overloads = [] := by
  cases r with
  | reset owner target => rfl
  | finishAt time => simp [perform, snd_finishAt]
  | _ => exact absurd ⟨rfl, rfl⟩ h

/-- The groups of an emitter are those of the overloads that it has accepted since the last start or
end of a directive. -/
theorem lookup_overloads_asked (receipt : Bool) {past steps : List Request}
    (h : LastSteps past steps) (name : String) (group : OverloadGroup) :
    (({ receipt } : Emitter).asked (past ++ steps)).overloads.lookup name = some group ↔
      ∃ o ∈ (({ receipt } : Emitter).asked past).accepts steps,
        o.name = name ∧ o.group = group := by
  have hStart : (({ receipt } : Emitter).asked past).overloads = [] := by
    cases hLast : past.getLast? with
    | none => simp [List.getLast?_eq_none_iff.1 hLast]
    | some r =>
        obtain ⟨before, rfl⟩ := List.getLast?_eq_some_iff.1 hLast
        rw [asked_append, asked_cons, asked_nil]
        exact Request.overloads_perform_of_not_inner (h.past r hLast) _
  have hNone : Lists (({ receipt } : Emitter).asked past) [] :=
    ⟨by simp [hStart], by simp, by simp [hStart]⟩
  have hLists := lists_asked hNone steps h.steps
  rw [List.nil_append, ← asked_append] at hLists
  constructor
  · intro hLookup
    obtain ⟨before, behind, hSplit, -⟩ := List.lookup_eq_some_iff.1 hLookup
    have hMem : (name, group) ∈ (({ receipt } : Emitter).asked (past ++ steps)).overloads := by
      rw [hSplit]
      exact List.mem_append_right _ List.mem_cons_self
    obtain ⟨o, ho, hSource⟩ := hLists.sources _ hMem
    obtain ⟨rfl, rfl⟩ := Prod.mk.inj hSource
    exact ⟨o, ho, rfl, rfl⟩
  · rintro ⟨o, ho, rfl, rfl⟩
    exact hLists.groups o ho

/-- Enumerations, tables and definitions are refused just when something is wrong with them, and
then nothing has been done. Definitions without overload keys are never refused. What an overload
must agree with are the overloads that the emitter has accepted since the last start or end of a
directive. -/
theorem faulty_requests_refused (e : Emitter) :
    (∀ d : Enumeration, Guarded (Emit.enumeration d) e d.Faulty) ∧
      (∀ t : Table, Guarded (Emit.table t) e t.Faulty) ∧
      (∀ d : Definition, Guarded (Emit.define d) e (d.overload ≠ [] ∧ d.Faulty e)) ∧
      ∀ receipt requests, ∃ past steps, requests = past ++ steps ∧ LastSteps past steps ∧
        ∀ name group,
          (({ receipt } : Emitter).asked requests).overloads.lookup name = some group ↔
            ∃ o ∈ (({ receipt } : Emitter).asked past).accepts steps,
              o.name = name ∧ o.group = group := by
  refine ⟨(·.guarded e), (·.guarded e), (·.guarded e), fun receipt requests => ?_⟩
  obtain ⟨past, steps, rfl, hLast⟩ := exists_lastSteps requests
  exact ⟨past, steps, rfl, hLast, lookup_overloads_asked receipt hLast⟩

end Metagen.Emission
