import Metagen.Proofs.Emission.Dispatcher
import Metagen.Proofs.Emission.Requests
import Metagen.Proofs.Grouping

/-! Who overloads which macro. An emitter is asked one thing after the other, by one directive after
the other, some of which are abandoned. Every overload that it accepts is in the ledger from then
on, all overloads of a macro belong to one directive and have parameters and keys in common, and
the file of that directive starts with one dispatcher for each macro. -/

namespace Metagen.Emission

open Text Emitter

/-- An overload that was accepted, and the directive that asked for it. -/
structure Overload where
  owner : String
  definition : Definition
  deriving DecidableEq, Repr

namespace Overload

def name (o : Overload) : String := o.definition.name

/-- What the overload has in common with the others of its macro. -/
def group (o : Overload) : OverloadGroup := o.definition.group

end Overload

/-- The overload that the request defines, if it defines one and is not refused. -/
def Request.accepted? (e : Emitter) : Request → Option Overload
  | define d =>
    if d.overload ≠ [] ∧ ((define d).perform e).1 = .done then some ⟨e.owner, d⟩ else none
  | _ => none

/-- The overloads that are accepted while an emitter is asked these requests, in order. -/
def Emitter.accepts : Emitter → List Request → List Overload
  | _, [] => []
  | e, r :: rest => (r.accepted? e).toList ++ (r.perform e).2.accepts rest

/-- Overloads that are accepted by requests in a row are those accepted by the first ones and then
by the others. -/
theorem Emitter.accepts_append (e : Emitter) (first second : List Request) :
    e.accepts (first ++ second) = e.accepts first ++ (e.asked first).accepts second := by
  induction first generalizing e with
  | nil => rfl
  | cons r rest ih => simp [accepts, ih]

/-- An overload is accepted if no other directive overloads the macro. It is entered into the ledger
unless it is there already, with the same parameters and keys. -/
structure Accepted (e : Emitter) (o : Overload) (l : Ledger) : Prop where
  owner : o.owner = e.owner
  isOverload : o.definition.IsOverload
  free : ∀ owner ∈ e.ledger.ownerOf? o.name, owner = e.owner
  entered : (e.overloads.lookup o.name = some o.group ∧ l = e.ledger) ∨
    (e.overloads.lookup o.name = none ∧ l = e.ledger.overloading o.name o.group)

namespace Request

/-- An overload is refused, and then the ledger stays as it is, or it is accepted, and then the
ledger records it. -/
theorem accepted?_define {d : Definition} (h : d.IsOverload) (e : Emitter) :
    ((define d).accepted? e = none ∧ ((define d).perform e).2.ledger = e.ledger) ∨
      (define d).accepted? e = some ⟨e.owner, d⟩ ∧
        Accepted e ⟨e.owner, d⟩ ((define d).perform e).2.ledger := by
  have hDefined : ∀ e' : Emitter,
      (e'.defineMacro d.variant d.restParams d.expansion d.doWhile).ledger = e'.ledger := by
    intro e'
    rw [defineMacro_eq_after, ledger_after]
  have hAccepted : (define d).accepted? e =
      if d.overload ≠ [] ∧ ((define d).perform e).1 = .done then some ⟨e.owner, d⟩ else none := rfl
  have hDefines := h.defineOutcome e
  rw [hAccepted]
  generalize (define d).perform e = result at hDefines ⊢
  cases hDefines with
  | owned => exact .inl ⟨by simp, rfl⟩
  | mismatch => exact .inl ⟨by simp, rfl⟩
  | again hFree hGroup =>
      right
      rw [hDefined]
      exact ⟨by simp [h.overload_ne], rfl, h, hFree, .inl ⟨hGroup, rfl⟩⟩
  | first hFree hGroup =>
      right
      rw [hDefined]
      exact ⟨by simp [h.overload_ne], rfl, h, hFree, .inr ⟨hGroup, rfl⟩⟩

/-- A definition that is no overload is never accepted as one. -/
theorem accepted?_of_not_overload {d : Definition} (h : ¬ d.IsOverload) (e : Emitter) :
    (define d).accepted? e = none := by
  apply if_neg
  rintro ⟨hOverload, hDone⟩
  cases hFault : d.fault? with
  | none => exact h ⟨hOverload, hFault⟩
  | some error => simp [perform, Definition.define_of_fault hFault, Answer.ofResult] at hDone

theorem ledger_of_ignoresLedger {r : Request} (h : r.IgnoresLedger) (e : Emitter) :
    (r.perform e).2.ledger = e.ledger := by
  obtain ⟨answer, change, hChange, hPerform⟩ := h
  rw [hPerform]
  exact hChange.ledger e

/-- Within a directive the ledger only changes by overloads that are accepted. -/
theorem accepted?_cases {r : Request} (hInner : r.Inner) (e : Emitter) :
    (r.accepted? e = none ∧ (r.perform e).2.ledger = e.ledger) ∨
      ∃ o, r.accepted? e = some o ∧ Accepted e o (r.perform e).2.ledger := by
  by_cases hDefine : ∃ d, r = define d
  · obtain ⟨d, rfl⟩ := hDefine
    by_cases hOverload : d.IsOverload
    · rcases accepted?_define hOverload e with hNone | hSome
      · exact .inl hNone
      · exact .inr ⟨_, hSome⟩
    · exact .inl ⟨accepted?_of_not_overload hOverload e,
        ledger_of_ignoresLedger (ignoresLedger_define hOverload) e⟩
  · have hNone : r.accepted? e = none := by
      cases r with
      | define d => exact (hDefine ⟨d, rfl⟩).elim
      | _ => rfl
    rcases r.cases with hBlind | ⟨owner, target, rfl⟩ | ⟨time, rfl⟩ | ⟨d, rfl, -⟩
    · exact .inl ⟨hNone, ledger_of_ignoresLedger hBlind e⟩
    · cases hInner.1
    · cases hInner.2
    · exact (hDefine ⟨d, rfl⟩).elim

end Request

namespace Accepted

variable {e : Emitter} {o : Overload} {l : Ledger}

/-- Accepting an overload only adds to the ledger. -/
theorem growsTo (h : Accepted e o l) : e.ledger.GrowsTo l := by
  rcases h.entered with ⟨-, rfl⟩ | ⟨hNew, rfl⟩
  · exact .refl _
  · have hFirst := (Ledger.lookup_overloads_eq_none_iff e.ledger o.name).1 hNew
    exact Ledger.growsTo_overloading hFirst h.free _

theorem lookup (h : Accepted e o l) : l.overloads.lookup o.name = some o.group := by
  rcases h.entered with ⟨hOld, rfl⟩ | ⟨hNew, rfl⟩
  · exact hOld
  · simp [Ledger.overloading, ledger, List.lookup_append, hNew]

/-- Other macros stay with their owners. -/
theorem ownerOf?_of_ne (h : Accepted e o l) {name : String} (hName : name ≠ o.name) :
    l.ownerOf? name = e.ledger.ownerOf? name := by
  rcases h.entered with ⟨-, rfl⟩ | ⟨-, rfl⟩
  · rfl
  · rw [Ledger.ownerOf?_overloading, if_neg hName]

/-- The macro has its owner already, or is claimed for the directive. -/
theorem ownerOf?_eq (h : Accepted e o l) :
    l.ownerOf? o.name = e.ledger.ownerOf? o.name ∨ l.ownerOf? o.name = some o.owner := by
  rcases h.entered with ⟨-, rfl⟩ | ⟨-, rfl⟩
  · exact .inl rfl
  · rw [Ledger.ownerOf?_overloading, if_pos rfl, h.owner]
    cases hOwner : e.ledger.ownerOf? o.name with
    | none => exact .inr rfl
    | some owner => exact .inr (congrArg some (h.free owner hOwner))

/-- What is in the ledger stays there. -/
theorem lookup_of_some (h : Accepted e o l) {name : String} {group : OverloadGroup}
    (hOld : e.overloads.lookup name = some group) : l.overloads.lookup name = some group := by
  rcases h.entered with ⟨-, rfl⟩ | ⟨-, rfl⟩
  · exact hOld
  · simp [Ledger.overloading, ledger, List.lookup_append, hOld]

end Accepted

namespace Ledger

/-- All macros of the running directive are its own, and all overloads that were accepted so far are
in the ledger. -/
structure RecordsOverloads (l : Ledger) (os : List Overload) : Prop where
  coherent : ∀ name ∈ l.overloaded, l.ownerOf? name = some l.owner
  owned : ∀ o ∈ os, l.ownerOf? o.name = some o.owner

theorem mem_overloaded_of_lookup {l : Ledger} {name : String} {group : OverloadGroup}
    (h : l.overloads.lookup name = some group) : name ∈ l.overloaded := by
  by_contra hNew
  simp [(lookup_overloads_eq_none_iff l name).2 hNew] at h

/-- A ledger that has grown still records the overloads that it recorded. -/
theorem RecordsOverloads.of_growsTo {l l' : Ledger} {os : List Overload} (h : l.RecordsOverloads os)
    (hGrows : l.GrowsTo l') : l'.RecordsOverloads os where
  coherent name hName := by
    by_cases hOld : name ∈ l.overloaded
    · rw [hGrows.owner]
      exact hGrows.ownerOf?_eq (h.coherent name hOld)
    · rw [hGrows.owner]
      exact (hGrows.owned name hName hOld).1
  owned o ho := hGrows.ownerOf?_eq (h.owned o ho)

/-- A ledger that records overloads records one more if the directive that asked for it owns the
macro. -/
theorem RecordsOverloads.concat {l : Ledger} {os : List Overload} {o : Overload}
    (h : l.RecordsOverloads os)
    (hOwner : l.ownerOf? o.name = some o.owner) : l.RecordsOverloads (os ++ [o]) where
  coherent := h.coherent
  owned o' ho' := by
    rcases List.mem_append.1 ho' with hOld | hNew
    · exact h.owned o' hOld
    · obtain rfl := List.mem_singleton.1 hNew
      exact hOwner

/-- A directive that starts has no macros of its own. -/
theorem RecordsOverloads.cleared {l l' : Ledger} {os : List Overload} (h : l.RecordsOverloads os)
    (hOverloads : l'.overloads = []) (hOwners : l'.owners = l.owners) : l'.RecordsOverloads os where
  coherent name hName := by simp [overloaded, hOverloads] at hName
  owned o ho := by
    rw [ownerOf?, hOwners]
    exact h.owned o ho

end Ledger

namespace Request

/-- What a request does to the ledger, whether it belongs to the directive that runs or not. -/
theorem ledger_cases (r : Request) (e : Emitter) :
    ((r.perform e).2.ledger = e.ledger ∧ r.accepted? e = none) ∨
      ((r.perform e).2.overloads = [] ∧ (r.perform e).2.owners = e.owners ∧
        r.accepted? e = none) ∨
      ∃ o, r.accepted? e = some o ∧ Accepted e o (r.perform e).2.ledger := by
  by_cases hInner : r.Inner
  · rcases accepted?_cases hInner e with ⟨hNone, hLedger⟩ | hSome
    · exact .inl ⟨hLedger, hNone⟩
    · exact .inr (.inr hSome)
  · cases r with
    | reset owner target => exact .inr (.inl ⟨rfl, rfl, rfl⟩)
    | finishAt time => exact .inr (.inl (by simp [perform, snd_finishAt, accepted?]))
    | _ => exact (hInner ⟨rfl, rfl⟩).elim

/-- Whatever is requested, the ledger records the overloads that were accepted before and with
it. -/
theorem recordsOverloads_perform {e : Emitter} {os : List Overload}
    (h : e.ledger.RecordsOverloads os) (r : Request) :
    (r.perform e).2.ledger.RecordsOverloads (os ++ (r.accepted? e).toList) := by
  rcases r.ledger_cases e with
    ⟨hLedger, hNone⟩ | ⟨hOverloads, hOwners, hNone⟩ | ⟨o, hSome, hAccepted⟩
  · simpa [hLedger, hNone] using h
  · rw [hNone, Option.toList_none, List.append_nil]
    exact h.cleared hOverloads hOwners
  · have hGrown := h.of_growsTo hAccepted.growsTo
    rw [hSome, Option.toList_some]
    apply hGrown.concat
    rw [hGrown.coherent _ (Ledger.mem_overloaded_of_lookup hAccepted.lookup),
      hAccepted.growsTo.owner, hAccepted.owner]
    rfl

end Request

namespace Emitter

variable {e : Emitter} {os : List Overload}

/-- By induction over the requests: the ledger records all overloads that were accepted, in the
order of their requests. -/
theorem recordsOverloads_asked (h : e.ledger.RecordsOverloads os) (requests : List Request) :
    (e.asked requests).ledger.RecordsOverloads (os ++ e.accepts requests) := by
  induction requests generalizing e os with
  | nil => simpa [accepts] using h
  | cons r rest ih => simpa [accepts] using ih (r.recordsOverloads_perform h)

/-- The ledger never loses or changes an entry. -/
theorem ownerOf?_asked (requests : List Request) {name owner : String}
    (h : e.ledger.ownerOf? name = some owner) :
    (e.asked requests).ledger.ownerOf? name = some owner := by
  induction requests generalizing e with
  | nil => exact h
  | cons r rest ih =>
      apply ih
      rcases r.ledger_cases e with ⟨hLedger, -⟩ | ⟨-, hOwners, -⟩ | ⟨o, -, hAccepted⟩
      · rwa [hLedger]
      · rwa [Ledger.ownerOf?, show (r.perform e).2.ledger.owners = e.owners from hOwners]
      · exact hAccepted.growsTo.ownerOf?_eq h

/-- Whatever is new in the ledger is an overload that was accepted. -/
theorem exists_accepted_of_ownerOf? (requests : List Request) {name owner : String}
    (h : (e.asked requests).ledger.ownerOf? name = some owner) :
    e.ledger.ownerOf? name = some owner ∨
      ∃ o ∈ e.accepts requests, o.name = name ∧ o.owner = owner := by
  induction requests generalizing e with
  | nil => exact .inl h
  | cons r rest ih =>
      rcases ih h with hStep | ⟨o, ho, hName⟩
      · rcases r.ledger_cases e with ⟨hLedger, -⟩ | ⟨-, hOwners, -⟩ | ⟨o, hSome, hAccepted⟩
        · exact .inl (hLedger ▸ hStep)
        · exact .inl (by rwa [Ledger.ownerOf?, show (r.perform e).2.ledger.owners = e.owners
            from hOwners] at hStep)
        · by_cases hNamed : name = o.name
          · subst hNamed
            rcases hAccepted.ownerOf?_eq with hOld | hNew
            · exact .inl (hOld ▸ hStep)
            · rw [hNew, Option.some.injEq] at hStep
              exact .inr ⟨o, List.mem_append_left _ (by simp [hSome]), rfl, hStep⟩
          · exact .inl ((hAccepted.ownerOf?_of_ne hNamed).symm.trans hStep)
      · exact .inr ⟨o, List.mem_append_right _ ho, hName⟩

end Emitter

/-- Overloads that were accepted before the next end of a directive: those of the running one are
listed with it, and overloads of one macro have parameters and keys in common. -/
structure AgreesWithOverloads (e : Emitter) (os : List Overload) : Prop where
  listed : ∀ o ∈ os, o.owner = e.owner → e.overloads.lookup o.name = some o.group
  same : ∀ o ∈ os, ∀ o' ∈ os, o.name = o'.name → o.group = o'.group

namespace AgreesWithOverloads

variable {e : Emitter} {os : List Overload}

/-- One more overload of a macro is like the others of it, since these have the same owner. -/
theorem concat (h : AgreesWithOverloads e os) {o : Overload} {e' : Emitter}
    (hAccepted : Accepted e o e'.ledger)
    (hRecords : e'.ledger.RecordsOverloads (os ++ [o])) : AgreesWithOverloads e' (os ++ [o]) := by
  have hOwner : e'.owner = e.owner := hAccepted.growsTo.owner
  have hListed : ∀ o' ∈ os ++ [o], o'.owner = e'.owner →
      e'.overloads.lookup o'.name = some o'.group := by
    intro o' ho' hOwn
    rcases List.mem_append.1 ho' with hOld | hNew
    · exact hAccepted.lookup_of_some (h.listed o' hOld (hOwn.trans hOwner))
    · obtain rfl := List.mem_singleton.1 hNew
      exact hAccepted.lookup
  have hLike : ∀ o' ∈ os ++ [o], o'.name = o.name → o'.group = o.group := by
    intro o' ho' hName
    have hNew : o ∈ os ++ [o] := List.mem_append_right _ (List.mem_singleton.2 rfl)
    have hSame : o'.owner = o.owner := by
      apply Option.some.inj
      rw [← hRecords.owned o' ho', ← hRecords.owned o hNew, hName]
    have hOwn : o.owner = e'.owner := hAccepted.owner.trans hOwner.symm
    have hGroup := hListed o' ho' (hSame.trans hOwn)
    rw [hName, hListed o hNew hOwn, Option.some.injEq] at hGroup
    exact hGroup.symm
  refine ⟨hListed, fun o₁ h₁ o₂ h₂ hName => ?_⟩
  rcases List.mem_append.1 h₁ with hOld₁ | hNew₁
  · rcases List.mem_append.1 h₂ with hOld₂ | hNew₂
    · exact h.same o₁ hOld₁ o₂ hOld₂ hName
    · obtain rfl := List.mem_singleton.1 hNew₂
      exact hLike o₁ h₁ hName
  · obtain rfl := List.mem_singleton.1 hNew₁
    exact (hLike o₂ h₂ hName.symm).symm

/-- A directive that starts has none of the overloads of those before it. -/
theorem reset (h : AgreesWithOverloads e os) {owner : String} (hFresh : ∀ o ∈ os, o.owner ≠ owner)
    (target : Option Target) : AgreesWithOverloads (e.reset owner target) os where
  listed o ho hOwn := (hFresh o ho hOwn).elim
  same := h.same

end AgreesWithOverloads

namespace Request

/-- Overloads within a directive are its own. -/
theorem owner_perform {r : Request} (hInner : r.Inner) (e : Emitter) :
    (r.perform e).2.owner = e.owner ∧ ∀ o ∈ r.accepted? e, o.owner = e.owner := by
  rcases accepted?_cases hInner e with ⟨hNone, hLedger⟩ | ⟨o, hSome, hAccepted⟩
  · exact ⟨congrArg Ledger.owner hLedger, by simp [hNone]⟩
  · exact ⟨hAccepted.growsTo.owner, by simpa [hSome] using hAccepted.owner⟩

/-- Within a directive each request keeps the table of overloads in agreement with those it has
accepted. -/
theorem agreesWithOverloads_perform {r : Request} (hInner : r.Inner) {e : Emitter}
    {os : List Overload}
    (h : AgreesWithOverloads e os) (hRecords : e.ledger.RecordsOverloads os) :
    AgreesWithOverloads (r.perform e).2 (os ++ (r.accepted? e).toList) := by
  have hLater := r.recordsOverloads_perform hRecords
  rcases accepted?_cases hInner e with ⟨hNone, hLedger⟩ | ⟨o, hSome, hAccepted⟩
  · have hOwner : (r.perform e).2.owner = e.owner := congrArg Ledger.owner hLedger
    have hOverloads : (r.perform e).2.overloads = e.overloads :=
      congrArg Ledger.overloads hLedger
    rw [hNone, Option.toList_none, List.append_nil]
    refine ⟨?_, h.same⟩
    rw [hOwner, hOverloads]
    exact h.listed
  · rw [hSome, Option.toList_some] at hLater ⊢
    exact h.concat hAccepted hLater

end Request

/-- Until a directive ends all overloads of a macro agree, also those of directives that are
abandoned. -/
theorem Emitter.agreesWithOverloads_asked {e : Emitter} {os : List Overload}
    (h : AgreesWithOverloads e os)
    (hRecords : e.ledger.RecordsOverloads os) (requests : List Request)
    (hRuns : ∀ r ∈ requests, r.ends = false)
    (hOwn : (e.owner :: requests.filterMap Request.owner?).Nodup)
    (hFresh : ∀ o ∈ os, o.owner ∉ requests.filterMap Request.owner?) :
    AgreesWithOverloads (e.asked requests) (os ++ e.accepts requests) := by
  induction requests generalizing e os with
  | nil => simpa [accepts] using h
  | cons r rest ih =>
      have hRest : ∀ r' ∈ rest, r'.ends = false := fun r' hr' => hRuns r' (.tail r hr')
      have hLater := r.recordsOverloads_perform hRecords
      rw [accepts, ← List.append_assoc]
      cases hReset : r.owner? with
      | none =>
          have hInner : r.Inner := ⟨hReset, hRuns r (.head rest)⟩
          obtain ⟨hOwner, hAccepted⟩ := Request.owner_perform hInner e
          rw [List.filterMap_cons_none hReset] at hOwn hFresh
          refine ih (Request.agreesWithOverloads_perform hInner h hRecords) hLater hRest
            (hOwner ▸ hOwn) ?_
          intro o ho
          rcases List.mem_append.1 ho with hOld | hNew
          · exact hFresh o hOld
          · rw [hAccepted o (Option.mem_toList.1 hNew)]
            exact (List.nodup_cons.1 hOwn).1
      | some owner =>
          rw [List.filterMap_cons_some hReset] at hOwn hFresh
          obtain ⟨target, rfl⟩ := Request.owner?_eq_some_iff.1 hReset
          have hNone : (Request.reset owner target).accepted? e = none := rfl
          rw [hNone, Option.toList_none, List.append_nil] at hLater ⊢
          refine ih (h.reset ?_ target) hLater hRest (List.nodup_cons.1 hOwn).2 ?_
          · exact fun o ho hOwner => hFresh o ho (hOwner ▸ .head _)
          · exact fun o ho hMem => hFresh o ho (.tail _ hMem)

/-- The overloaded macros of a directive are listed in the order of their first overloads. -/
structure Lists (e : Emitter) (os : List Overload) : Prop where
  names : e.overloads.map (·.1) = (os.map Overload.name).eraseDups
  groups : ∀ o ∈ os, e.overloads.lookup o.name = some o.group
  sources : ∀ g ∈ e.overloads, ∃ o ∈ os, g = (o.name, o.group)

/-- An accepted overload leaves the macros listed in the order of their first overloads. -/
theorem Lists.concat {e : Emitter} {os : List Overload} (h : Lists e os) {o : Overload}
    {e' : Emitter} (hAccepted : Accepted e o e'.ledger) : Lists e' (os ++ [o]) := by
  have hGroups : ∀ o' ∈ os ++ [o], e'.overloads.lookup o'.name = some o'.group := by
    intro o' ho'
    rcases List.mem_append.1 ho' with hOld | hNew
    · exact hAccepted.lookup_of_some (h.groups o' hOld)
    · obtain rfl := List.mem_singleton.1 hNew
      exact hAccepted.lookup
  have hNamed : e.overloads.lookup o.name = none ↔
      o.name ∉ (os.map Overload.name).eraseDups := by
    rw [← h.names]
    exact Ledger.lookup_overloads_eq_none_iff e.ledger o.name
  have hSources : ∀ g ∈ e.overloads, ∃ o' ∈ os ++ [o], g = (o'.name, o'.group) := by
    intro g hg
    obtain ⟨o', ho', hSource⟩ := h.sources g hg
    exact ⟨o', List.mem_append_left _ ho', hSource⟩
  have hNames : (os ++ [o]).map Overload.name = os.map Overload.name ++ [o.name] := by simp
  rcases hAccepted.entered with ⟨hOld, hLedger⟩ | ⟨hNew, hLedger⟩
  · have hOverloads : e'.overloads = e.overloads := congrArg Ledger.overloads hLedger
    have hMem : o.name ∈ (os.map Overload.name).eraseDups := by
      by_contra hNot
      simp [hNamed.2 hNot] at hOld
    refine ⟨?_, hGroups, hOverloads ▸ hSources⟩
    rw [hOverloads, hNames, eraseDups_concat, if_pos (List.contains_iff_mem.2 hMem), h.names]
  · have hOverloads : e'.overloads = e.overloads ++ [(o.name, o.group)] :=
      congrArg Ledger.overloads hLedger
    refine ⟨?_, hGroups, ?_⟩
    · rw [hOverloads, hNames, eraseDups_concat,
        if_neg (mt List.contains_iff_mem.1 (hNamed.1 hNew)), ← h.names, List.map_append]
      rfl
    · intro g hg
      rw [hOverloads, List.mem_append, List.mem_singleton] at hg
      rcases hg with hOld | rfl
      · exact hSources g hOld
      · exact ⟨o, by simp, rfl⟩

/-- Within a directive each request keeps the overloaded macros listed in the order of their first
overloads. -/
theorem Request.lists_perform {r : Request} (hInner : r.Inner) {e : Emitter} {os : List Overload}
    (h : Lists e os) : Lists (r.perform e).2 (os ++ (r.accepted? e).toList) := by
  rcases accepted?_cases hInner e with ⟨hNone, hLedger⟩ | ⟨o, hSome, hAccepted⟩
  · have hOverloads : (r.perform e).2.overloads = e.overloads :=
      congrArg Ledger.overloads hLedger
    rw [hNone, Option.toList_none, List.append_nil]
    exact ⟨hOverloads ▸ h.names, hOverloads ▸ h.groups, hOverloads ▸ h.sources⟩
  · rw [hSome, Option.toList_some]
    exact h.concat hAccepted

/-- By induction over the requests of a directive: its overloaded macros are listed in the order of
their first overloads. -/
theorem Emitter.lists_asked {e : Emitter} {os : List Overload} (h : Lists e os)
    (steps : List Request) (hInner : ∀ r ∈ steps, r.Inner) :
    Lists (e.asked steps) (os ++ e.accepts steps) := by
  induction steps generalizing e os with
  | nil => simpa [accepts] using h
  | cons r rest ih =>
      have hStep := Request.lists_perform (hInner r (.head rest)) h
      rw [accepts, ← List.append_assoc]
      exact ih hStep fun r' hr' => hInner r' (.tail r hr')

/-- The names of the overload stay on one line. -/
def Overload.SingleLine (o : Overload) : Prop :=
  '\n' ∉ o.name.toList ∧ ∀ p ∈ o.group.params, '\n' ∉ p.toList

def dispatcherLine (group : String × OverloadGroup) : String :=
  trimEnd (dispatcher group.1 group.2) ++ "\n"

/-- A dispatcher that stays on one line is written as that line. -/
theorem render_dispatcher {name : String} {group : OverloadGroup} (h : SingleLine name group) :
    render (Line.fragment false 0 (dispatcher name group)) = dispatcherLine (name, group) := by
  rw [Line.fragment, h.fragmentLines_dispatcher]
  simp [render, Line.render, layOut, dispatcherLine, trimEnd_trimEnd, spaces]

/-- Dispatchers that stay on one line are written one line each. -/
theorem render_dispatchers {groups : List (String × OverloadGroup)}
    (h : ∀ g ∈ groups, SingleLine g.1 g.2) :
    render (groups.flatMap fun g => Line.fragment false 0 (dispatcher g.1 g.2)) =
      String.join (groups.map dispatcherLine) := by
  induction groups with
  | nil => rfl
  | cons g rest ih =>
      rw [List.flatMap_cons, render_append, render_dispatcher (h g (.head rest)),
        ih fun g' hg' => h g' (.tail g hg')]
      simp

/-- An emitter has a target only from the start to the end of a directive that has one. -/
theorem Emitter.exists_reset_of_target {e : Emitter} (hNone : e.target = none) {target : Target}
    (before : List Request) (h : (e.asked before).target = some target) :
    ∃ past owner steps, before = past ++ .reset owner (some target) :: steps ∧
      ∀ r ∈ steps, r.Inner := by
  induction before using List.reverseRecOn with
  | nil => simp [hNone] at h
  | append_singleton past r ih =>
      rw [asked_append, asked_cons, asked_nil] at h
      by_cases hInner : r.Inner
      · have hFile := Request.file_perform hInner (e.asked past)
        rw [show (r.perform (e.asked past)).2.target = (e.asked past).target from
          congrArg Prod.fst hFile] at h
        obtain ⟨past', owner, steps, rfl, hSteps⟩ := ih h
        refine ⟨past', owner, steps ++ [r], by simp, ?_⟩
        intro r' hr'
        rcases List.mem_append.1 hr' with hOld | hNew
        · exact hSteps r' hOld
        · exact List.mem_singleton.1 hNew ▸ hInner
      · cases r with
        | reset owner target' =>
            obtain rfl : target' = some target := h
            exact ⟨past, owner, [], rfl, by simp⟩
        | finishAt time => simp [Request.perform, snd_finishAt] at h
        | _ => exact (hInner ⟨rfl, rfl⟩).elim

/-- Only overloads are accepted as such: their definition names parameters and values. -/
theorem Emitter.isOverload_of_mem_accepts {e : Emitter} {requests : List Request} {o : Overload}
    (h : o ∈ e.accepts requests) : o.definition.IsOverload := by
  induction requests generalizing e with
  | nil => cases h
  | cons r rest ih =>
      rcases List.mem_append.1 h with hHere | hLater
      · rcases r.ledger_cases e with ⟨-, hNone⟩ | ⟨-, -, hNone⟩ | ⟨o', hSome, hAccepted⟩
        · simp [hNone] at hHere
        · simp [hNone] at hHere
        · rw [hSome, Option.toList_some, List.mem_singleton] at hHere
          exact hHere ▸ hAccepted.isOverload
      · exact ih hLater

/-- The line of a finished file that says where it comes from, if files start with one. -/
def receiptText (receipt : Bool) (target : Target) (time : String) : String :=
  if receipt then trimEnd (receiptLine target time) ++ "\n" else ""

/-- What becomes of the overloads that an emitter is asked for. -/
structure Ownership (e : Emitter) (requests : List Request) : Prop where
  /-- No macro is overloaded by two directives. -/
  single : ∀ o ∈ e.accepts requests, ∀ o' ∈ e.accepts requests, o.name = o'.name →
    o.owner = o'.owner
  /-- The ledger holds just the overloads that were accepted. -/
  recorded : ∀ name owner, (e.asked requests).ledger.ownerOf? name = some owner ↔
    ∃ o ∈ e.accepts requests, o.name = name ∧ o.owner = owner
  /-- Entries of the ledger stay as they are. -/
  kept : ∀ past later, requests = past ++ later → ∀ name owner,
    (e.asked past).ledger.ownerOf? name = some owner →
      (e.asked requests).ledger.ownerOf? name = some owner
  /-- Until a directive ends all overloads of a macro have the same parameters and keys. -/
  agreeing : ∀ past owner target steps later,
    requests = past ++ .reset owner target :: (steps ++ later) → (∀ r ∈ steps, r.ends = false) →
      ∀ o ∈ ((e.asked past).reset owner target).accepts steps,
        ∀ o' ∈ ((e.asked past).reset owner target).accepts steps, o.name = o'.name →
          o.definition.params = o'.definition.params ∧
            o.definition.overload.map (·.1) = o'.definition.overload.map (·.1)
  /-- Without a target nothing is written at the end of a directive. -/
  dropped : ∀ past time later, requests = past ++ .finishAt time :: later →
    (e.asked past).target = none →
      ((Request.finishAt time).perform (e.asked past)).1 = .finished none
  /-- With one, a file is written that holds one dispatcher for each macro overloaded since the
  directive started, between the receipt and its own text. -/
  written : ∀ past time later, requests = past ++ .finishAt time :: later →
    ∀ target, (e.asked past).target = some target → ∃ before owner steps,
      past = before ++ .reset owner (some target) :: steps ∧ (∀ r ∈ steps, r.Inner) ∧
        ((∀ o ∈ ((e.asked before).reset owner target).accepts steps, o.SingleLine) →
          ∃ groups : List (String × OverloadGroup),
            groups.map (·.1) = ((((e.asked before).reset owner target).accepts steps).map
              Overload.name).eraseDups ∧
            (∀ o ∈ ((e.asked before).reset owner target).accepts steps,
              groups.lookup o.name = some o.group) ∧
            ((Request.finishAt time).perform (e.asked past)).1 = .finished (some ⟨target.path,
              receiptText e.receipt target time ++ String.join (groups.map dispatcherLine) ++
                (e.asked past).output⟩))

/-- The directive that has just started has nothing in common with those before it. -/
theorem Emitter.agreesWithOverloads_of_reset (e : Emitter) (owner : String) (target : Option Target)
    (steps : List Request) (hRuns : ∀ r ∈ steps, r.ends = false)
    (hOwn : (owner :: steps.filterMap Request.owner?).Nodup) :
    AgreesWithOverloads ((e.reset owner target).asked steps)
      ((e.reset owner target).accepts steps) := by
  have hStart : (e.reset owner target).ledger.RecordsOverloads [] :=
    ⟨by simp [Ledger.overloaded, ledger, Emitter.reset], by simp⟩
  have hAgrees : AgreesWithOverloads (e.reset owner target) [] := ⟨by simp, by simp⟩
  simpa using agreesWithOverloads_asked hAgrees hStart steps hRuns hOwn (by simp)

/-- All overloads of a macro in one directive are alike. -/
theorem Emitter.group_eq_of_accepted (e : Emitter) (owner : String) (target : Option Target)
    {steps : List Request} (hSteps : ∀ r ∈ steps, r.Inner) {o o' : Overload}
    (ho : o ∈ (e.reset owner target).accepts steps)
    (ho' : o' ∈ (e.reset owner target).accepts steps) (hName : o.name = o'.name) :
    o.group = o'.group := by
  have hNone : steps.filterMap Request.owner? = [] :=
    List.filterMap_eq_nil_iff.2 fun r hr => (hSteps r hr).1
  have hAgrees := agreesWithOverloads_of_reset e owner target steps (fun r hr => (hSteps r hr).2)
    (by simp [hNone])
  exact hAgrees.same o ho o' ho' hName

/-- The names of an overload stay on one line, and so do those of the group it belongs to. -/
theorem Overload.SingleLine.group {o : Overload} (h : o.SingleLine)
    (hOverload : o.definition.IsOverload) : Emission.SingleLine o.name o.group where
  name := h.1
  params := h.2
  keys key hKey := by
    obtain ⟨params, hParams, hSound⟩ := hOverload.sound
    obtain ⟨entry, hEntry, rfl⟩ := List.mem_map.1 hKey
    apply h.2
    simpa [Overload.group, Definition.group, hParams] using (hSound entry hEntry).1

/-- A finished file has its receipt, then one dispatcher for each macro that the directive has
overloaded, and then the text that was written. -/
theorem Emitter.fst_finishAt_of_lists {e : Emitter} {os : List Overload} (h : Lists e os)
    {target : Target} (hTarget : e.target = some target)
    (hSingle : ∀ o ∈ os, Emission.SingleLine o.name o.group) (time : String) :
    (e.finishAt time).1 = some ⟨target.path, receiptText e.receipt target time ++
      String.join (e.overloads.map dispatcherLine) ++ e.output⟩ := by
  have hGroups : ∀ g ∈ e.overloads, Emission.SingleLine g.1 g.2 := by
    intro g hg
    obtain ⟨o, ho, rfl⟩ := h.sources g hg
    exact hSingle o ho
  have hReceipt : (if e.receipt then layOut false 0 (receiptLine target time) ++ "\n" else "") =
      receiptText e.receipt target time := by
    simp [receiptText, layOut, spaces]
  rw [fst_finishAt, hTarget, Option.map_some, render_dispatchers hGroups, hReceipt]

/-- Whatever is requested, if no two directives have one name: each overloaded macro has one owner,
whose file dispatches it once. -/
theorem overloads_owned (receipt : Bool) (requests : List Request)
    (hOwn : (requests.filterMap Request.owner?).Nodup) :
    Ownership ({ receipt } : Emitter) requests := by
  have hStart : ({ receipt } : Emitter).ledger.RecordsOverloads [] :=
    ⟨by simp [Ledger.overloaded, ledger], by simp⟩
  have hRecords : ∀ past, (({ receipt } : Emitter).asked past).ledger.RecordsOverloads
      (({ receipt } : Emitter).accepts past) := fun past => recordsOverloads_asked hStart past
  refine ⟨?single, ?recorded, ?kept, ?agreeing, ?dropped, ?written⟩
  case single =>
    intro o ho o' ho' hName
    apply Option.some.inj
    rw [← (hRecords requests).owned o ho, hName, (hRecords requests).owned o' ho']
  case recorded =>
    intro name owner
    constructor
    · intro h
      rcases exists_accepted_of_ownerOf? requests h with hBefore | hAccepted
      · cases hBefore
      · exact hAccepted
    · rintro ⟨o, ho, rfl, rfl⟩
      exact (hRecords requests).owned o ho
  case kept =>
    rintro past later rfl name owner h
    rw [asked_append]
    exact ownerOf?_asked later h
  case agreeing =>
    rintro past owner target steps later rfl hRuns o ho o' ho' hName
    have hSegment : (owner :: steps.filterMap Request.owner?).Nodup := by
      refine hOwn.sublist ?_
      simp [List.filterMap_append, Request.owner?]
    have hGroup :=
      (agreesWithOverloads_of_reset _ owner target steps hRuns hSegment).same o ho o' ho' hName
    obtain ⟨params, hParams, -⟩ := (isOverload_of_mem_accepts ho).sound
    obtain ⟨params', hParams', -⟩ := (isOverload_of_mem_accepts ho').sound
    simp only [Overload.group, Definition.group, hParams, hParams', Option.getD_some,
      OverloadGroup.mk.injEq] at hGroup
    exact ⟨by rw [hParams, hParams', hGroup.1], hGroup.2⟩
  case dropped =>
    intro past time later _ hTarget
    simp [Request.perform, fst_finishAt, hTarget]
  case written =>
    intro past time later _ target hTarget
    obtain ⟨before, owner, steps, rfl, hSteps⟩ := exists_reset_of_target rfl past hTarget
    refine ⟨before, owner, steps, rfl, hSteps, fun hSingle => ?_⟩
    have hLists : Lists ((({ receipt } : Emitter).asked before).reset owner (some target)) [] :=
      ⟨rfl, by simp, by simp [Emitter.reset]⟩
    have hListed := lists_asked hLists steps hSteps
    rw [asked_append, asked_cons] at hTarget ⊢
    refine ⟨_, hListed.names, hListed.groups, ?_⟩
    have hFile := fst_finishAt_of_lists hListed hTarget
      (fun o ho => (hSingle o ho).group (isOverload_of_mem_accepts ho)) time
    rw [receipt_asked, show ((({ receipt } : Emitter).asked before).reset owner
      (some target)).receipt = receipt from receipt_asked _ before] at hFile
    exact congrArg Answer.finished hFile

/-- Two directives that overload the same macro, of which the first one does so twice. -/
def rivals : List Request :=
  [.reset "a.c:1" (some ⟨"a.h", "a.c", 1⟩),
   .define { name := "F", params := some ["T", "x"], expansion := "x", overload := [("T", "i8")] },
   .define { name := "F", params := some ["T", "x"], expansion := "-x", overload := [("T", "u8")] },
   .finishAt "now",
   .reset "b.c:1" none,
   .define { name := "F", params := some ["T", "x"], expansion := "+x", overload := [("T", "i4")] }]

/-- Two directives define overloads of one macro: the second one is refused, and the first owns the
macro to the end. -/
theorem rivals_owned : (rivals.filterMap Request.owner?).Nodup ∧
    (({ receipt := true } : Emitter).accepts rivals).map (fun o => (o.owner, o.name)) =
      [("a.c:1", "F"), ("a.c:1", "F")] ∧ Ownership ({ receipt := true } : Emitter) rivals :=
  ⟨by decide, by decide +kernel, overloads_owned true rivals (by decide)⟩

end Metagen.Emission
