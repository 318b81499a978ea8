import Metagen.Proofs.Emission.Program
import Metagen.Proofs.Tandem
import Mathlib.Data.List.Basic

/-! The ledger of overloaded macros, which outlives the directive that fills it. While a directive
runs its ledger grows by macros that no other directive has overloaded. What others have overloaded
matters for nothing but this, so that the directive does the same after others than those that ran
before it, if none of them has overloaded the same macros. -/

namespace Metagen.Emission

open Text Emitter HoldsEmitter

namespace Ledger

/-- Macros that the running directive has overloaded. -/
def overloaded (l : Ledger) : List String := l.overloads.map (·.1)

def ownerOf? (l : Ledger) (name : String) : Option String := l.owners.lookup name

/-- The running directive overloads more macros, and none of another directive. -/
structure GrowsTo (l l' : Ledger) : Prop where
  owner : l'.owner = l.owner
  overloaded : l.overloaded ⊆ l'.overloaded
  owned : ∀ name ∈ l'.overloaded, name ∉ l.overloaded →
    l'.ownerOf? name = some l.owner ∧ ∀ o ∈ l.ownerOf? name, o = l.owner
  others : ∀ name, (name ∈ l'.overloaded → name ∈ l.overloaded) → l'.ownerOf? name = l.ownerOf? name

namespace GrowsTo

theorem refl (l : Ledger) : l.GrowsTo l where
  owner := rfl
  overloaded := List.Subset.refl _
  owned _ hNew hOld := (hOld hNew).elim
  others _ _ := rfl

/-- A ledger that grows in two steps has grown: owners stay, and overloads are only added. -/
theorem trans {l l' l'' : Ledger} (h : l.GrowsTo l') (h' : l'.GrowsTo l'') : l.GrowsTo l'' where
  owner := h'.owner.trans h.owner
  overloaded := List.Subset.trans h.overloaded h'.overloaded
  owned name hLast hOld := by
    by_cases hMiddle : name ∈ l'.overloaded
    · rw [h'.others name fun _ => hMiddle]
      exact h.owned name hMiddle hOld
    · have hOwned := h'.owned name hLast hMiddle
      rwa [h.owner, h.others name fun hNew => (hMiddle hNew).elim] at hOwned
  others name hName := by
    have hMiddle : name ∈ l'.overloaded → name ∈ l.overloaded := fun h => hName (h'.overloaded h)
    rw [h'.others name fun hLast => h.overloaded (hName hLast), h.others name hMiddle]

/-- Macros stay with the directives that overload them. -/
theorem ownerOf?_eq {l l' : Ledger} (h : l.GrowsTo l') {name owner : String}
    (hOwner : l.ownerOf? name = some owner) : l'.ownerOf? name = some owner := by
  by_cases hNew : name ∈ l'.overloaded ∧ name ∉ l.overloaded
  · obtain ⟨hOwned, hSame⟩ := h.owned name hNew.1 hNew.2
    rw [hOwned, hSame owner hOwner]
  · rw [h.others name fun hLater => by_contra fun hOld => hNew ⟨hLater, hOld⟩]
    exact hOwner

end GrowsTo

/-- The ledger of the same directive behind directives that have claimed other macros. -/
structure Varies (claimed : String → Option String) (l k : Ledger) : Prop where
  owner : k.owner = l.owner
  overloads : k.overloads = l.overloads
  owned : ∀ name ∈ l.overloaded, k.ownerOf? name = some l.owner
  others : ∀ name, name ∉ l.overloaded → k.ownerOf? name = claimed name

/-- None of the overloaded macros is claimed by another directive. -/
def Admits (claimed : String → Option String) (l : Ledger) : Prop :=
  ∀ name ∈ l.overloaded, ∀ o ∈ claimed name, o = l.owner

theorem Admits.of_growsTo {claimed : String → Option String} {l l' : Ledger} (h : l.GrowsTo l')
    (hAdmits : l'.Admits claimed) : l.Admits claimed :=
  fun name hName o ho => h.owner ▸ hAdmits name (h.overloaded hName) o ho

/-- The ledger with one more overloaded macro. -/
def overloading (l : Ledger) (name : String) (group : OverloadGroup) : Ledger where
  owner := l.owner
  owners := if l.owners.any (·.1 == name) then l.owners else l.owners ++ [(name, l.owner)]
  overloads := l.overloads ++ [(name, group)]

section

variable {claimed : String → Option String} {l k : Ledger} {name : String} {group : OverloadGroup}

/-- A macro has no group of parameters exactly if it is not among those that are overloaded. -/
theorem lookup_overloads_eq_none_iff (l : Ledger) (name : String) :
    l.overloads.lookup name = none ↔ name ∉ l.overloaded := by
  simp only [List.lookup_eq_none_iff, overloaded, List.mem_map, not_exists, not_and, bne_iff_ne,
    ne_eq, @eq_comm _ name]

theorem mem_overloaded_overloading (other : String) :
    other ∈ (l.overloading name group).overloaded ↔ other ∈ l.overloaded ∨ other = name := by
  simp [overloaded, overloading]

/-- Overloading a macro gives it an owner, the running directive, if it has none; other macros keep
theirs. -/
theorem ownerOf?_overloading (other : String) : (l.overloading name group).ownerOf? other =
    if other = name then some ((l.ownerOf? name).getD l.owner) else l.ownerOf? other := by
  have hAny : l.owners.any (·.1 == name) = (l.ownerOf? name).isSome := by
    rw [Bool.eq_iff_iff, ownerOf?, List.lookup_isSome_iff, List.any_eq_true]
    simp only [beq_iff_eq, @eq_comm _ name]
  unfold overloading
  change List.lookup other (if _ then _ else _) = _
  rw [hAny]
  cases hOwner : l.ownerOf? name with
  | some owner =>
      rw [if_pos (by rfl)]
      split
      next hName => exact hName ▸ hOwner
      next => rfl
  | none =>
      rw [if_neg (by simp), List.lookup_append]
      split
      next hName =>
        subst hName
        rw [show l.owners.lookup other = none from hOwner]
        simp
      next hName =>
        rw [List.lookup_cons, beq_false_of_ne hName]
        exact Option.or_none

/-- A macro that nobody else overloads is one more of the directive. -/
theorem growsTo_overloading (hNew : name ∉ l.overloaded)
    (hOwner : ∀ o ∈ l.ownerOf? name, o = l.owner)
    (group : OverloadGroup) : l.GrowsTo (l.overloading name group) where
  owner := rfl
  overloaded other hOld := (mem_overloaded_overloading other).2 (.inl hOld)
  owned other hLater hOld := by
    obtain rfl := ((mem_overloaded_overloading other).1 hLater).resolve_left hOld
    refine ⟨?_, hOwner⟩
    rw [ownerOf?_overloading, if_pos rfl]
    cases hOwned : l.ownerOf? other with
    | none => rfl
    | some owner => exact congrArg some (hOwner owner hOwned)
  others other hOther := by
    rw [ownerOf?_overloading, if_neg]
    rintro rfl
    exact hNew (hOther ((mem_overloaded_overloading other).2 (.inr rfl)))

/-- If two ledgers differ in what others have claimed, they still do so alone when both get an
overload of a macro that nobody else has claimed. -/
theorem Varies.overloading (h : l.Varies claimed k) (hNew : name ∉ l.overloaded)
    (hClaimed : ∀ o ∈ claimed name, o = l.owner) (group : OverloadGroup) :
    (l.overloading name group).Varies claimed (k.overloading name group) where
  owner := h.owner
  overloads := congrArg (· ++ [(name, group)]) h.overloads
  owned other hOther := by
    rw [ownerOf?_overloading]
    split
    next =>
      rw [h.others name hNew, h.owner]
      cases hOwned : claimed name with
      | none => rfl
      | some owner => exact congrArg some (hClaimed owner hOwned)
    next hName =>
      exact h.owned other (((mem_overloaded_overloading other).1 hOther).resolve_right hName)
  others other hOther := by
    rw [mem_overloaded_overloading, not_or] at hOther
    rw [ownerOf?_overloading, if_neg hOther.2]
    exact h.others other hOther.1

end

end Ledger

/-- Two runs with emitters, the second of which may also run behind other directives. -/
def ledgers {State : Type} [HoldsEmitter State] (beside : State → State → Prop) :
    Tandem State where
  beside := beside
  leads s t := (emitter s).ledger.GrowsTo (emitter t).ledger
  Variation := String → Option String
  varies claimed s t := ∃ k, (emitter s).ledger.Varies claimed k ∧
    t = setEmitter s ((emitter s).withLedger k)
  admits claimed s := (emitter s).ledger.Admits claimed
  refl _ := .refl _
  trans := .trans
  admits_of_leads := .of_growsTo

/-- A change of the emitter that neither looks at the ledger nor changes it. -/
structure Blind (change : Emitter → Emitter) : Prop where
  ledger : ∀ e, (change e).ledger = e.ledger
  withLedger : ∀ e l, change (e.withLedger l) = (change e).withLedger l

namespace Blind

variable {change next : Emitter → Emitter}

theorem after {layout : Layout} (h : ∀ e, change e = e.after layout) : Blind change where
  ledger e := by rw [h, ledger_after]
  withLedger e l := by rw [h, h, after_withLedger]

theorem comp (h : Blind change) (hNext : Blind next) : Blind fun e => next (change e) where
  ledger e := by rw [hNext.ledger, h.ledger]
  withLedger e l := by rw [h.withLedger, hNext.withLedger]

theorem ite {p : Prop} [Decidable p] (h : Blind change) (hNext : Blind next) :
    Blind fun e => if p then change e else next e := by
  by_cases hp : p
  · simp only [if_pos hp]
    exact h
  · simp only [if_neg hp]
    exact hNext

theorem id : Blind fun e => e := ⟨fun _ => rfl, fun _ _ => rfl⟩

theorem indent (level : Nat → Nat) : Blind fun e => { e with indent := level e.indent } :=
  ⟨fun _ => rfl, fun _ _ => rfl⟩

theorem exit (side : ExitSide) : Blind (·.exit side) := by
  have hClosing : Blind (·.lineIfAny side.closing) := .after fun e => e.lineIfAny_eq_after _
  have hBlank : Blind (·.blank) := .after Emitter.blank_eq_after
  have hEnd : Blind fun e => { e with inMacro := false } := ⟨fun _ => rfl, fun _ _ => rfl⟩
  exact (((indent (· - 1)).comp hClosing).comp ((indent (· - 1)).ite id)).comp
    ((hEnd.comp hBlank).ite id)

theorem enter (scope : Scope) : Blind fun e => (e.enter scope).2 where
  ledger e := by
    rw [enter_eq]
    exact e.ledger_place _ _ _
  withLedger e l := by
    rw [enter_eq, enter_eq]
    exact e.place_withLedger _ _ _ _

theorem beginSection (text : String) : Blind (·.beginSection text) :=
  ⟨fun _ => rfl, fun _ _ => rfl⟩

theorem endSection : Blind (·.endSection) := ⟨fun _ => rfl, fun _ _ => rfl⟩

end Blind

section

variable {Failure State Result : Type} [HoldsEmitter State] {beside : State → State → Prop}
  {step : Action Failure State Result} {s t : State} {result : Result}

/-- A step that has nothing to do with the emitter. -/
theorem ends_of_same (h : ∀ e, step (setEmitter s e) = .ok result (setEmitter t e))
    (hs : setEmitter s (emitter s) = s) (ht : setEmitter t (emitter t) = t)
    (hSame : emitter t = emitter s) : (ledgers beside).Ends step s result t := by
  refine ⟨?_, ?_, ?_⟩
  · have hStep := h (emitter s)
    rwa [hs, ← hSame, ht] at hStep
  · change (emitter s).ledger.GrowsTo (emitter t).ledger
    rw [hSame]
    exact .refl _
  · rintro claimed _ ⟨k, hVaries, rfl⟩ -
    exact ⟨_, h _, k, hSame ▸ hVaries, by rw [hSame]⟩

/-- A blind change of the emitter ends well, and it does so behind other directives too. -/
theorem ends_changeEmitter {change : Emitter → Emitter} (h : Blind change) (s : State) :
    (ledgers beside).Ends (changeEmitter change : Action Failure State Unit) s ()
      (setEmitter s (change (emitter s))) := by
  have hLedger : (emitter (setEmitter s (change (emitter s)))).ledger = (emitter s).ledger := by
    rw [emitter_setEmitter, h.ledger]
  refine ⟨rfl, ?_, ?_⟩
  · change Ledger.GrowsTo _ _
    rw [hLedger]
    exact .refl _
  · rintro claimed _ ⟨k, hVaries, rfl⟩ -
    refine ⟨_, rfl, k, hLedger ▸ hVaries, ?_⟩
    simp only [emitter_setEmitter, setEmitter_setEmitter, h.withLedger]

/-- A request ends for a state as it does for the emitter in it. -/
theorem ends_liftEmit {wrap : EmissionError → Failure} {emit : Emit Result}
    {beside' : Emitter → Emitter → Prop} {e : Emitter}
    (h : (ledgers beside').Ends emit (emitter s) result e) :
    (ledgers beside).Ends (liftEmit wrap emit) s result (setEmitter s e) := by
  have hLift : ∀ (s : State) (e : Emitter), emit (emitter s) = .ok result e →
      liftEmit wrap emit s = .ok result (setEmitter s e) := by
    intro s e hEmit
    rw [liftEmit, hEmit]
  refine ⟨hLift s e h.ends, ?_, ?_⟩
  · change Ledger.GrowsTo _ _
    rw [emitter_setEmitter]
    exact h.leads
  · rintro claimed _ ⟨k, hVaries, rfl⟩ hAdmits
    change (emitter (setEmitter s e)).ledger.Admits claimed at hAdmits
    rw [emitter_setEmitter] at hAdmits
    obtain ⟨_, hEmit, l, hVaried, rfl⟩ := h.varied claimed _ ⟨k, hVaries, rfl⟩ hAdmits
    refine ⟨_, hLift _ _ (by rwa [emitter_setEmitter]), l, ?_, ?_⟩
    · rw [emitter_setEmitter]
      exact hVaried
    · rw [setEmitter_setEmitter, setEmitter_setEmitter, emitter_setEmitter]
      rfl

/-- A blind change may come behind a step that ends well, also behind other directives. -/
theorem ends_andAfter {change : Emitter → Emitter} (hChange : Blind change)
    (h : (ledgers beside).Ends step s result t) : (ledgers beside).Ends (andAfter step change) s
      result (setEmitter t (change (emitter t))) := by
  have hAfter : ∀ s t, step s = .ok result t →
      andAfter step change s = .ok result (setEmitter t (change (emitter t))) := by
    intro s t hStep
    rw [andAfter, hStep]
  have hLedger : (emitter (setEmitter t (change (emitter t)))).ledger = (emitter t).ledger := by
    rw [emitter_setEmitter, hChange.ledger]
  refine ⟨hAfter s t h.ends, ?_, ?_⟩
  · change Ledger.GrowsTo _ _
    rw [hLedger]
    exact h.leads
  · intro claimed u hVaries hAdmits
    change (emitter (setEmitter t (change (emitter t)))).ledger.Admits claimed at hAdmits
    rw [hLedger] at hAdmits
    obtain ⟨_, hStep, l, hVaried, rfl⟩ := h.varied claimed u hVaries hAdmits
    refine ⟨_, hAfter _ _ hStep, l, hLedger ▸ hVaried, ?_⟩
    simp only [emitter_setEmitter, setEmitter_setEmitter, hChange.withLedger]

/-- A step with another one before it that changes the emitter only. -/
theorem ends_entering {change : Emitter → Emitter} (hChange : Blind change)
    (h : (ledgers beside).Ends step (setEmitter s (change (emitter s))) result t) :
    (ledgers beside).Ends (fun s => step (setEmitter s (change (emitter s)))) s result t := by
  have hLedger : (emitter (setEmitter s (change (emitter s)))).ledger = (emitter s).ledger := by
    rw [emitter_setEmitter, hChange.ledger]
  refine ⟨h.ends, ?_, ?_⟩
  · have hLeads := h.leads
    change Ledger.GrowsTo _ _ at hLeads
    rwa [hLedger] at hLeads
  · rintro claimed _ ⟨k, hVaries, rfl⟩ hAdmits
    obtain ⟨u, hRun, hVaried⟩ := h.varied claimed _ ⟨k, hLedger ▸ hVaries, rfl⟩ hAdmits
    refine ⟨u, ?_, hVaried⟩
    rw [emitter_setEmitter, setEmitter_setEmitter] at hRun
    rwa [emitter_setEmitter, setEmitter_setEmitter, hChange.withLedger]

/-- A scope is entered, its body runs, and it is left by a change that depends on its exit side
alone. -/
theorem withScope_eq (scope : Scope) (step : Action Failure State Result) :
    withScope scope step = fun s =>
      andAfter step (·.exit scope.side) (setEmitter s ((emitter s).enter scope).2) := by
  funext s
  have hSide : ((emitter s).enter scope).1 = scope.side := by rw [enter_eq]
  rw [withScope, ← hSide]

/-- States beside each other have the same emitter, whatever it is. -/
structure SameEmitters (beside : State → State → Prop) : Prop where
  same : ∀ s t, beside s t → emitter s = emitter t
  put : ∀ s t e, beside s t → beside (setEmitter s e) (setEmitter t e)

namespace SameEmitters

variable {Other : Type} {R : Result → Other → Prop} {first : Action Failure State Result}
  {second : Action Failure State Other}

/-- A blind change of the emitter follows itself in states with the same emitters. -/
theorem changeEmitter (hSame : SameEmitters beside) {change : Emitter → Emitter}
    (h : Blind change) : Follows (ledgers beside) Eq
      (changeEmitter change : Action Failure State Unit) (changeEmitter change) := by
  intro s t hStates done s' hRun
  obtain ⟨rfl, rfl⟩ := EStateM.Result.ok.inj hRun
  refine ⟨_, _, ends_changeEmitter h t, ?_, rfl⟩
  rw [hSame.same s t hStates]
  exact hSame.put s t _ hStates

/-- A request that follows itself for emitters does so for states that hold them. -/
theorem liftEmit (hSame : SameEmitters beside) (wrap : EmissionError → Failure) {emit : Emit Result}
    (h : Follows (ledgers Eq) Eq emit emit) : Follows (ledgers beside) Eq
      (liftEmit wrap emit : Action Failure State Result) (liftEmit wrap emit) := by
  intro s t hStates a s' hRun
  unfold Emission.liftEmit at hRun
  cases hEmit : emit (emitter s) with
  | error error e =>
      simp only [hEmit] at hRun
      cases hRun
  | ok c e =>
      simp only [hEmit] at hRun
      obtain ⟨rfl, rfl⟩ := EStateM.Result.ok.inj hRun
      obtain ⟨_, _, hEnds, rfl, rfl⟩ := h _ _ rfl c e hEmit
      rw [hSame.same s t hStates] at hEnds
      exact ⟨_, _, ends_liftEmit hEnds, hSame.put s t _ hStates, rfl⟩

/-- A blind change of the emitter may come behind steps that follow each other. -/
theorem andAfter (hSame : SameEmitters beside) {change : Emitter → Emitter} (hChange : Blind change)
    (h : Follows (ledgers beside) R first second) :
    Follows (ledgers beside) R (andAfter first change) (andAfter second change) := by
  intro s t hStates a s'' hRun
  unfold Emission.andAfter at hRun
  cases hFirst : first s with
  | error stop r =>
      simp only [hFirst] at hRun
      cases hRun
  | ok c s' =>
      simp only [hFirst] at hRun
      obtain ⟨rfl, rfl⟩ := EStateM.Result.ok.inj hRun
      obtain ⟨b, t', hEnds, hNext, hResult⟩ := h s t hStates c s' hFirst
      refine ⟨b, _, ends_andAfter hChange hEnds, ?_, hResult⟩
      rw [hSame.same s' t' hNext]
      exact hSame.put s' t' _ hNext

/-- What is done after the emitter was changed. -/
theorem entering (hSame : SameEmitters beside) {change : Emitter → Emitter} (hChange : Blind change)
    (h : Follows (ledgers beside) R first second) : Follows (ledgers beside) R
      (fun s => first (setEmitter s (change (emitter s))) : Action Failure State Result)
      (fun s => second (setEmitter s (change (emitter s)))) := by
  intro s t hStates a s' hRun
  have hEntered := hSame.put s t (change (emitter s)) hStates
  obtain ⟨b, t', hEnds, hNext, hResult⟩ := h _ _ hEntered a s' hRun
  rw [hSame.same s t hStates] at hEnds
  exact ⟨b, t', ends_entering hChange hEnds, hNext, hResult⟩

/-- Steps that follow each other do so inside of a scope, which is entered and left on both
sides. -/
theorem withScope (hSame : SameEmitters beside) (scope : Scope)
    (h : Follows (ledgers beside) R first second) :
    Follows (ledgers beside) R (withScope scope first) (withScope scope second) := by
  rw [withScope_eq, withScope_eq]
  exact hSame.entering (.enter scope) (hSame.andAfter (.exit scope.side) h)

/-- Steps that follow each other do so inside of a section, which is begun and ended on both
sides. -/
theorem withSection (hSame : SameEmitters beside) (text : String)
    (h : Follows (ledgers beside) R first second) :
    Follows (ledgers beside) R (withSection text first) (withSection text second) :=
  hSame.entering (.beginSection text) (hSame.andAfter .endSection h)

end SameEmitters

end

/-- What may come of entering an overload into the ledger. -/
inductive Registers (e : Emitter) (name : String) (group : OverloadGroup) :
    EStateM.Result EmissionError Emitter Unit → Prop where
  | owned (owner : String) (hOwner : e.ledger.ownerOf? name = some owner)
      (hOther : owner ≠ e.owner) : Registers e name group (.error (.overloadOwned name owner) e)
  | mismatch (other : OverloadGroup) (hOwner : ∀ o ∈ e.ledger.ownerOf? name, o = e.owner)
      (hGroup : e.overloads.lookup name = some other) (hOther : other ≠ group) :
      Registers e name group (.error (.overloadMismatch name) e)
  | again (hOwner : ∀ o ∈ e.ledger.ownerOf? name, o = e.owner)
      (hGroup : e.overloads.lookup name = some group) : Registers e name group (.ok () e)
  | first (hOwner : ∀ o ∈ e.ledger.ownerOf? name, o = e.owner)
      (hGroup : e.overloads.lookup name = none) :
      Registers e name group (.ok () (e.withLedger (e.ledger.overloading name group)))

/-- An overload is registered, or refused because another directive owns the macro or overloads it
differently. -/
theorem registers (e : Emitter) (name : String) (group : OverloadGroup) :
    Registers e name group (Emit.registerOverload name group e) := by
  have hGet (next : Emitter → Emit Unit) (s : Emitter) : (get >>= next) s = next s s := rfl
  have hOld : ∀ other : OverloadGroup, (∀ o ∈ e.ledger.ownerOf? name, o = e.owner) →
      e.overloads.lookup name = some other → Registers e name group
        ((if other != group then throw (.overloadMismatch name) else pure () : Emit Unit) e) := by
    intro other hOwner hGroup
    by_cases hSame : other = group
    · subst hSame
      rw [if_neg (by simp)]
      exact .again hOwner hGroup
    · rw [if_pos (by simpa using hSame)]
      exact .mismatch other hOwner hGroup hSame
  unfold Emit.registerOverload
  rw [hGet]
  cases hOwner : e.owners.lookup name with
  | none =>
      have hFree : ∀ o ∈ e.ledger.ownerOf? name, o = e.owner := by
        simp [Ledger.ownerOf?, ledger, hOwner]
      cases hGroup : e.overloads.lookup name with
      | none => exact .first hFree hGroup
      | some other => exact hOld other hFree hGroup
  | some owner =>
      dsimp only
      split
      next hOther => exact .owned owner hOwner (bne_iff_ne.1 hOther)
      next hSame =>
        have hFree : ∀ o ∈ e.ledger.ownerOf? name, o = e.owner := by
          simpa [Ledger.ownerOf?, ledger, hOwner] using hSame
        cases hGroup : e.overloads.lookup name with
        | none => exact .first hFree hGroup
        | some other => exact hOld other hFree hGroup

namespace Emitter

/-- A macro is registered if no other directive overloads it, and if it is not overloaded in another
way. -/
theorem registerOverload_iff (e e' : Emitter) (name : String) (group : OverloadGroup) :
    Emit.registerOverload name group e = .ok () e' ↔
      (∀ o ∈ e.ledger.ownerOf? name, o = e.owner) ∧
        (e.overloads.lookup name = some group ∧ e' = e ∨
          e.overloads.lookup name = none ∧
            e' = e.withLedger (e.ledger.overloading name group)) := by
  have hRegisters := registers e name group
  generalize Emit.registerOverload name group e = result at hRegisters ⊢
  cases hRegisters with
  | owned owner hOwner hOther => simp [hOwner, hOther]
  | mismatch other hOwner hGroup hOther => simp [hGroup, hOther]
  | again hOwner hGroup => simpa [hGroup, @eq_comm _ e] using fun _ => hOwner
  | first hOwner hGroup => simpa [hGroup, @eq_comm _ e'] using fun _ => hOwner

theorem output_adding (e : Emitter) (h : e.sections = []) (ls : List Line) :
    (e.adding ls).output = e.output ++ render ls := by
  cases ls with
  | nil => simp [render]
  | cons line rest => simp [adding, waiting, h]

/-- A finished file holds the receipt, if there is one, the dispatchers and the directive's own
text. -/
theorem fst_finishAt (e : Emitter) (time : String) :
    (e.finishAt time).1 = e.target.map fun target => ⟨target.path,
      (if e.receipt then layOut false 0 (receiptLine target time) ++ "\n" else "") ++
        render (e.overloads.flatMap fun g => Line.fragment false 0 (dispatcher g.1 g.2)) ++
          e.output⟩ := by
  have hText : ∀ (target : Target) (head : Emitter), head.sections = [] → head.inMacro = false →
      head.indent = 0 → some (Generated.mk target.path ((e.overloads.foldl
        (fun h group => h.line (dispatcher group.1 group.2)) head).output ++ e.output)) =
      some ⟨target.path, head.output ++
        render (e.overloads.flatMap fun g => Line.fragment false 0 (dispatcher g.1 g.2)) ++
          e.output⟩ := by
    intro target head hSections hMacro hIndent
    have hLines := head.lines_eq (e.overloads.map fun g => dispatcher g.1 g.2)
    rw [lines, List.foldl_map, List.flatMap_map, hMacro, hIndent] at hLines
    rw [hLines, output_adding head hSections]
  unfold finishAt
  cases e.target with
  | none => rfl
  | some target =>
      cases e.receipt with
      | true =>
          refine (hText target _ rfl rfl rfl).trans ?_
          simp [write]
      | false => exact hText target _ rfl rfl rfl

/-- Without a receipt a finished file depends neither on the time nor on who overloads what. -/
theorem generated_finishAt (e : Emitter) (hReceipt : e.receipt = false) (time : String) :
    (e.finishAt time).1 = e.target.map fun target => ⟨target.path,
      (({ receipt := false } : Emitter).lines
        (e.overloads.map fun group => dispatcher group.1 group.2)).output ++ e.output⟩ := by
  have hHead : (({ receipt := false } : Emitter).lines
      (e.overloads.map fun group => dispatcher group.1 group.2)).output =
        render (e.overloads.flatMap fun g => Line.fragment false 0 (dispatcher g.1 g.2)) := by
    rw [lines_eq, output_adding _ rfl, List.flatMap_map]
    exact String.empty_append
  rw [fst_finishAt, hReceipt, hHead]
  simp

/-- What a finished directive leaves does not depend on the time. -/
theorem snd_finishAt (e : Emitter) (time : String) : (e.finishAt time).2 =
    { e with output := "", indent := 0, inMacro := false, sections := [], overloads := [],
             target := none } := by
  unfold finishAt
  cases e.target <;> rfl

/-- Finishing a file changes no owner of a macro. -/
theorem ownerOf?_finishAt (e : Emitter) (time name : String) :
    (e.finishAt time).2.ledger.ownerOf? name = e.ledger.ownerOf? name := by
  rw [snd_finishAt]
  rfl

theorem receipt_finishAt (e : Emitter) (time : String) :
    (e.finishAt time).2.receipt = e.receipt := by rw [snd_finishAt]

end Emitter

/-- The step does the same behind other directives. -/
abbrev Portable {Failure Result : Type} (step : Action Failure Emitter Result) : Prop :=
  Follows (ledgers Eq) Eq step step

namespace Portable

variable {Failure : Type}

theorem sameEmitters : SameEmitters (Eq (α := Emitter)) :=
  ⟨fun _ _ => id, fun _ _ _ _ => rfl⟩

/-- A change that writes a layout is portable: what is written does not depend on the owners of
macros. -/
theorem change {change : Emitter → Emitter} {layout : Layout}
    (h : ∀ e, change e = e.after layout) :
    Portable (changeEmitter change : Action Failure Emitter Unit) :=
  sameEmitters.changeEmitter (.after h)

/-- Registering an overload does the same behind other directives, if they own none of its
macros. -/
theorem register (name : String) (group : OverloadGroup) :
    Portable (Emit.registerOverload name group) := by
  rintro e _ rfl done last hRun
  obtain ⟨hOwner, ⟨hGroup, rfl⟩ | ⟨hGroup, rfl⟩⟩ := (registerOverload_iff _ _ name group).1 hRun
  · refine ⟨_, _, ⟨hRun, .refl _, ?_⟩, rfl, rfl⟩
    rintro claimed _ ⟨k, hVaries, rfl⟩ -
    refine ⟨_, (registerOverload_iff _ _ name group).2 ⟨?_, .inl ⟨?_, rfl⟩⟩, k, hVaries, rfl⟩
    · have hOld : name ∈ last.ledger.overloaded := by
        by_contra hNew
        have hNone : last.overloads.lookup name = none :=
          (Ledger.lookup_overloads_eq_none_iff last.ledger name).2 hNew
        rw [hGroup] at hNone
        cases hNone
      change ∀ o ∈ k.ownerOf? name, o = k.owner
      rw [hVaries.owned name hOld, hVaries.owner]
      simp
    · change k.overloads.lookup name = _
      rw [hVaries.overloads]
      exact hGroup
  · have hNew := (Ledger.lookup_overloads_eq_none_iff e.ledger name).1 hGroup
    refine ⟨_, _, ⟨hRun, Ledger.growsTo_overloading hNew hOwner group, ?_⟩, rfl, rfl⟩
    rintro claimed _ ⟨k, hVaries, rfl⟩ hAdmits
    have hClaimed : ∀ o ∈ claimed name, o = e.owner :=
      hAdmits name ((Ledger.mem_overloaded_overloading name).2 (.inr rfl))
    refine ⟨_, (registerOverload_iff _ _ name group).2 ⟨?_, .inr ⟨?_, rfl⟩⟩,
      k.overloading name group, hVaries.overloading hNew hClaimed group, rfl⟩
    · change ∀ o ∈ k.ownerOf? name, o = k.owner
      rw [hVaries.others name hNew, hVaries.owner]
      exact hClaimed
    · change k.overloads.lookup name = _
      rw [hVaries.overloads]
      exact hGroup

theorem definition (name : String) (params : Option (List String)) (expansion : String)
    (doWhile : Bool) :
    Portable (changeEmitter (·.defineMacro name params expansion doWhile) : Emit Unit) :=
  change fun e => e.defineMacro_eq_after name params expansion doWhile

/-- An overload is entered into the ledger before its definition is written. -/
theorem overload (name variant : String) (group : OverloadGroup) (params : Option (List String))
    (expansion : String) (doWhile : Bool) :
    Portable (Emit.registerOverload name group >>= fun _ =>
      changeEmitter (·.defineMacro variant params expansion doWhile)) :=
  (register name group).bindSame fun _ => definition variant params expansion doWhile

/-- A definition does the same behind other directives, whether it is an overload, plain or
refused. -/
theorem define (d : Definition) : Portable (Emit.define d) := by
  unfold Emit.define
  split
  · exact definition _ _ _ _
  · cases d.params with
    | none => exact .throw _
    | some params =>
        dsimp only
        cases d.overload.findSome? (overloadFault? d.name params) with
        | none => exact overload _ _ _ _ _ _
        | some fault => exact (Follows.throw fault).bindSame fun _ => overload _ _ _ _ _ _

/-- Lines in a scope. -/
theorem block (scope : Scope) (texts : List String) :
    Portable (Emission.withScope scope (changeEmitter (·.lines texts)) : Emit Unit) :=
  sameEmitters.withScope scope (change fun e => e.lines_eq_after texts)

/-- An enumeration does the same behind other directives, since it overloads nothing. -/
theorem enumeration (d : Enumeration) : Portable (Emit.enumeration d) := by
  unfold Emit.enumeration
  have hText : Portable (do
      Emission.withScope (.headed d.header) (changeEmitter
        (·.lines (justifiedLines (d.members.map d.memberCells))))
      changeEmitter (·.lineIfAny d.countLine) : Emit Unit) :=
    (block _ _).bindSame fun _ => change fun e => e.lineIfAny_eq_after _
  cases d.fault? with
  | none => exact hText
  | some fault => exact (Follows.throw fault).bindSame fun _ => hText

/-- A table does the same behind other directives, since it overloads nothing. -/
theorem table (t : Table) : Portable (Emit.table t) := by
  unfold Emit.table
  cases t.fault? with
  | none => exact block _ _
  | some fault => exact (Follows.throw fault).bindSame fun _ => block _ _

end Portable

end Metagen.Emission
