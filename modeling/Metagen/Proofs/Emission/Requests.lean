import Metagen.Proofs.Emission.Owners
import Metagen.Proofs.Emission.Target

/-! Requests to an emitter, one behind the other: directives start, emit and end in any order, and
may be abandoned on the way. Most requests neither look at the ledger of overloaded macros nor
change it; overloads do, and only in one of four ways. -/

namespace Metagen.Emission

open Text Emitter

/-- One thing that is asked of an emitter. -/
inductive Request where
  | reset (owner : String) (target : Option Target)
  | line (text : String)
  | lines (texts : List String)
  | blank
  | enter (scope : Scope)
  | exit (side : ExitSide)
  | beginSection (text : String)
  | endSection
  | define (d : Definition)
  | enumeration (d : Enumeration)
  | table (t : Table)
  | finishAt (time : String)
  deriving DecidableEq, Repr

inductive Answer where
  | done
  | entered (side : ExitSide)
  | refused (error : EmissionError)
  | finished (file : Option Generated)
  deriving DecidableEq, Repr

/-- The answer to a request that may be refused, and the emitter behind it. -/
def Answer.ofResult : EStateM.Result EmissionError Emitter Unit → Answer × Emitter
  | .ok () e => (.done, e)
  | .error error e => (.refused error, e)

namespace Request

/-- What the emitter does when it is asked. -/
def perform : Request → Emitter → Answer × Emitter
  | reset owner target, e => (.done, e.reset owner target)
  | line text, e => (.done, e.line text)
  | lines texts, e => (.done, e.lines texts)
  | blank, e => (.done, e.blank)
  | enter scope, e => (.entered (e.enter scope).1, (e.enter scope).2)
  | exit side, e => (.done, e.exit side)
  | beginSection text, e => (.done, e.beginSection text)
  | endSection, e => (.done, e.endSection)
  | define d, e => Answer.ofResult (Emit.define d e)
  | enumeration d, e => Answer.ofResult (Emit.enumeration d e)
  | table t, e => Answer.ofResult (Emit.table t e)
  | finishAt time, e => (.finished (e.finishAt time).1, (e.finishAt time).2)

/-- The directive that the request starts, if it starts one. -/
def owner? : Request → Option String
  | reset owner _ => some owner
  | _ => none

theorem owner?_eq_some_iff {r : Request} {owner : String} :
    r.owner? = some owner ↔ ∃ target, r = reset owner target := by
  cases r <;> simp [owner?]

def ends : Request → Bool
  | finishAt _ => true
  | _ => false

/-- The request belongs to the directive that runs. -/
def Inner (r : Request) : Prop := r.owner? = none ∧ r.ends = false

end Request

def Emitter.asked (e : Emitter) (requests : List Request) : Emitter :=
  requests.foldl (fun e r => (r.perform e).2) e

@[simp] theorem Emitter.asked_nil (e : Emitter) : e.asked [] = e := rfl

@[simp] theorem Emitter.asked_cons (e : Emitter) (r : Request) (rest : List Request) :
    e.asked (r :: rest) = (r.perform e).2.asked rest := rfl

@[simp] theorem Emitter.asked_append (e : Emitter) (first second : List Request) :
    e.asked (first ++ second) = (e.asked first).asked second := List.foldl_append

namespace Definition

variable (d : Definition)

/-- What the definition has in common with the other overloads of its macro. -/
def group : OverloadGroup := ⟨d.params.getD [], d.overload.map (·.1)⟩

def values : List String := d.overload.map (·.2)

def variant : String := variantName d.name d.values

def restParams : Option (List String) := if d.group.rest.isEmpty then none else some d.group.rest

/-- What is wrong with an overload, whatever else the emitter has been asked. -/
def fault? : Option EmissionError :=
  if d.overload.isEmpty then none
  else match d.params with
    | none => some (.overloadWithoutParams d.name)
    | some params => d.overload.findSome? (overloadFault? d.name params)

/-- The definition is an overload that can be dispatched. -/
structure IsOverload : Prop where
  overload_ne : d.overload ≠ []
  fault_none : d.fault? = none

variable {d}

/-- A definition without overloads writes the macro and is never refused. -/
theorem define_of_plain (h : d.overload = []) (e : Emitter) :
    Emit.define d e = .ok () (e.defineMacro d.name d.params d.expansion d.doWhile) := by
  unfold Emit.define
  rw [if_pos (by simp [h])]
  rfl

/-- A definition with a fault is refused with it, and the emitter stays as it is. -/
theorem define_of_fault {error : EmissionError} (h : d.fault? = some error) (e : Emitter) :
    Emit.define d e = .error error e := by
  unfold fault? at h
  unfold Emit.define
  split at h
  · cases h
  next hOverload =>
    rw [if_neg hOverload]
    cases hParams : d.params with
    | none =>
        simp only [hParams, Option.some.injEq] at h
        subst h
        rfl
    | some params =>
        simp only [hParams] at h
        simp only [h]
        rfl

/-- An overload is entered into the ledger and defined under a name of its own. -/
theorem IsOverload.define_eq (h : d.IsOverload) : Emit.define d =
    Emit.registerOverload d.name d.group >>= fun _ =>
      changeEmitter (·.defineMacro d.variant d.restParams d.expansion d.doWhile) := by
  have hFault := h.fault_none
  have hOverload : ¬ d.overload.isEmpty = true := by simp [h.overload_ne]
  unfold fault? at hFault
  rw [if_neg hOverload] at hFault
  unfold Emit.define restParams variant group
  rw [if_neg hOverload]
  cases hParams : d.params with
  | none => simp [hParams] at hFault
  | some params =>
      simp only [hParams] at hFault
      simp only [hFault]
      rfl

/-- The keys of an overload are parameters, and its values parts of names. -/
theorem IsOverload.sound (h : d.IsOverload) : ∃ params, d.params = some params ∧
    ∀ key ∈ d.overload, key.1 ∈ params ∧ isNamePart key.2 = true := by
  have hFault := h.fault_none
  unfold fault? at hFault
  rw [if_neg (by simp [h.overload_ne])] at hFault
  cases hParams : d.params with
  | none => simp [hParams] at hFault
  | some params =>
      simp only [hParams, List.findSome?_eq_none_iff, overloadFault?] at hFault
      refine ⟨params, rfl, fun key hKey => ?_⟩
      have hKeyFault := hFault key hKey
      split at hKeyFault
      · cases hKeyFault
      · simp_all

end Definition

/-- What may come of an overload that is asked for. -/
inductive DefineOutcome (e : Emitter) (d : Definition) : Answer × Emitter → Prop where
  | owned (owner : String) (hOwner : e.ledger.ownerOf? d.name = some owner)
      (hOther : owner ≠ e.owner) : DefineOutcome e d (.refused (.overloadOwned d.name owner), e)
  | mismatch (other : OverloadGroup) (hFree : ∀ o ∈ e.ledger.ownerOf? d.name, o = e.owner)
      (hGroup : e.overloads.lookup d.name = some other) (hOther : other ≠ d.group) :
      DefineOutcome e d (.refused (.overloadMismatch d.name), e)
  | again (hFree : ∀ o ∈ e.ledger.ownerOf? d.name, o = e.owner)
      (hGroup : e.overloads.lookup d.name = some d.group) :
      DefineOutcome e d (.done, e.defineMacro d.variant d.restParams d.expansion d.doWhile)
  | first (hFree : ∀ o ∈ e.ledger.ownerOf? d.name, o = e.owner)
      (hGroup : e.overloads.lookup d.name = none) :
      DefineOutcome e d (.done,
        (e.withLedger (e.ledger.overloading d.name d.group)).defineMacro d.variant
        d.restParams d.expansion d.doWhile)

/-- An overload is defined or refused, and its outcome tells which, by who owns the macro and how it
is overloaded. -/
theorem Definition.IsOverload.defineOutcome {d : Definition} (h : d.IsOverload) (e : Emitter) :
    DefineOutcome e d ((Request.define d).perform e) := by
  have hPerform : (Request.define d).perform e = Answer.ofResult (EStateM.bind
      (Emit.registerOverload d.name d.group)
      (fun _ => changeEmitter (·.defineMacro d.variant d.restParams d.expansion d.doWhile)) e) :=
    congrArg (fun action : Emit Unit => Answer.ofResult (action e)) h.define_eq
  have hRegisters := registers e d.name d.group
  rw [hPerform]
  unfold EStateM.bind
  generalize Emit.registerOverload d.name d.group e = result at hRegisters ⊢
  cases hRegisters with
  | owned owner hOwner hOther => exact .owned owner hOwner hOther
  | mismatch other hFree hGroup hOther => exact .mismatch other hFree hGroup hOther
  | again hFree hGroup => exact .again hFree hGroup
  | first hFree hGroup => exact .first hFree hGroup

namespace Showing

variable {Failure Result Next : Type}

/-- What an action comes to has nothing to do with the ledger. -/
def IgnoresLedger (showing : Showing Failure Result) : Prop :=
  ∃ layout result, ∀ l, showing l = ⟨layout, result, l⟩

theorem ignoresLedger_fail (failure : Failure) :
    IgnoresLedger (fail failure : Showing Failure Result) :=
  ⟨_, _, fun _ => rfl⟩

theorem ignoresLedger_write (layout : Layout) :
    IgnoresLedger (write layout : Showing Failure Unit) :=
  ⟨_, _, fun _ => rfl⟩

theorem IgnoresLedger.within {body : Showing Failure Result} (h : body.IgnoresLedger)
    (wrapper : Layout → Layout) : (body.within wrapper).IgnoresLedger := by
  obtain ⟨layout, result, h⟩ := h
  exact ⟨wrapper layout, result, fun l => by simp [Showing.within, h]⟩

/-- Two actions one behind the other ignore the ledger if each of them does. -/
theorem IgnoresLedger.andThen {first : Showing Failure Result}
    {second : Result → Showing Failure Next}
    (hFirst : first.IgnoresLedger)
    (hSecond : ∀ a, (second a).IgnoresLedger) : (first.andThen second).IgnoresLedger := by
  obtain ⟨layout, result, hFirst⟩ := hFirst
  cases result with
  | error failure => exact ⟨layout, .error failure, fun l => by simp [Showing.andThen, hFirst]⟩
  | ok a =>
      obtain ⟨layout', result', hSecond⟩ := hSecond a
      exact ⟨.both layout layout', result', fun l => by simp [Showing.andThen, hFirst, hSecond]⟩

/-- An enumeration is refused or written without looking at the ledger. -/
theorem ignoresLedger_enumeration (d : Enumeration) : (enumeration d).IgnoresLedger := by
  unfold enumeration
  cases d.fault? with
  | some fault => exact ignoresLedger_fail fault
  | none => exact ((ignoresLedger_write _).within _).andThen fun _ => ignoresLedger_write _

/-- A table is refused or written without looking at the ledger. -/
theorem ignoresLedger_table (t : Table) : (table t).IgnoresLedger := by
  unfold table
  cases t.fault? with
  | some fault => exact ignoresLedger_fail fault
  | none => exact (ignoresLedger_write _).within _

end Showing

namespace Request

/-- The request neither looks at the ledger nor changes it. -/
def IgnoresLedger (r : Request) : Prop :=
  ∃ answer change, Emission.Blind change ∧ ∀ e, r.perform e = (answer, change e)

/-- A request that is shown everywhere and ignores the ledger leaves all emitters alike that differ
in it alone. -/
theorem blind_of_showsEverywhere {r : Request} {action : Emit Unit}
    {showing : Showing EmissionError Unit}
    (h : ∀ e, r.perform e = Answer.ofResult (action e)) (hShows : ShowsEverywhere action showing)
    (hSteady : showing.IgnoresLedger) : r.IgnoresLedger := by
  obtain ⟨layout, result, hSteady⟩ := hSteady
  have hPerform : ∀ e, r.perform e =
      Answer.ofResult (Shown.behind ⟨layout, result, e.ledger⟩ e) := by
    intro e
    rw [h, hShows, hSteady]
  cases result with
  | ok _ => exact ⟨.done, (·.after layout), .after fun _ => rfl, fun e => by
      simp [hPerform, Shown.behind, Answer.ofResult, after_withLedger_ledger]⟩
  | error failure => exact ⟨.refused failure, (·.after layout), .after fun _ => rfl, fun e => by
      simp [hPerform, Shown.behind, Answer.ofResult, after_withLedger_ledger]⟩

/-- A definition that is no overload does not look at the ledger. -/
theorem ignoresLedger_define {d : Definition} (h : ¬ d.IsOverload) : (define d).IgnoresLedger := by
  by_cases hOverload : d.overload = []
  · refine ⟨.done, (·.defineMacro d.name d.params d.expansion d.doWhile),
      .after fun e => e.defineMacro_eq_after _ _ _ _, fun e => ?_⟩
    simp [perform, Definition.define_of_plain hOverload, Answer.ofResult]
  · cases hFault : d.fault? with
    | none => exact (h ⟨hOverload, hFault⟩).elim
    | some error =>
        refine ⟨.refused error, fun e => e, .id, fun e => ?_⟩
        simp [perform, Definition.define_of_fault hFault, Answer.ofResult]

/-- All requests but overloads, and those that start or end a directive, are blind. -/
theorem cases (r : Request) : r.IgnoresLedger ∨ (∃ owner target, r = reset owner target) ∨
    (∃ time, r = finishAt time) ∨ ∃ d, r = define d ∧ d.IsOverload := by
  cases r with
  | reset owner target => exact .inr (.inl ⟨owner, target, rfl⟩)
  | finishAt time => exact .inr (.inr (.inl ⟨time, rfl⟩))
  | define d =>
      by_cases h : d.IsOverload
      · exact .inr (.inr (.inr ⟨d, rfl, h⟩))
      · exact .inl (ignoresLedger_define h)
  | line text => exact .inl ⟨_, _, .after fun e => e.line_eq_after text, fun _ => rfl⟩
  | lines texts => exact .inl ⟨_, _, .after fun e => e.lines_eq_after texts, fun _ => rfl⟩
  | blank => exact .inl ⟨_, _, .after Emitter.blank_eq_after, fun _ => rfl⟩
  | enter scope => exact .inl ⟨.entered scope.side, _, .enter scope, fun e => by
      simp [perform, enter_eq]⟩
  | exit side => exact .inl ⟨_, _, .exit side, fun _ => rfl⟩
  | beginSection text => exact .inl ⟨_, _, .beginSection text, fun _ => rfl⟩
  | endSection => exact .inl ⟨_, _, .endSection, fun _ => rfl⟩
  | enumeration d =>
      exact .inl (blind_of_showsEverywhere
        (fun _ => rfl) (.enumeration d) (Showing.ignoresLedger_enumeration d))
  | table t =>
      exact .inl (blind_of_showsEverywhere
        (fun _ => rfl) (.table t) (Showing.ignoresLedger_table t))

end Request

@[simp] theorem Answer.snd_ofResult (result : EStateM.Result EmissionError Emitter Unit) :
    (ofResult result).2 = endState result := by
  cases result with
  | ok _ _ => rfl
  | error _ _ => rfl

/-- Only the start and the end of a directive change the file. -/
theorem Request.file_perform {r : Request} (h : r.Inner) (e : Emitter) :
    (r.perform e).2.file = e.file := by
  have hEmit {action : Emit Unit} (hKeeps : KeepsFile action) :
      (Answer.ofResult (action e)).2.file = e.file := by
    rw [Answer.snd_ofResult]
    exact hKeeps e
  cases r with
  | reset owner target => cases h.1
  | finishAt time => cases h.2
  | define d => exact hEmit (.define d)
  | enumeration d => exact hEmit (.enumeration d)
  | table t => exact hEmit (.table t)
  | beginSection text => rfl
  | endSection => rfl
  | _ => simp [perform]

/-- Requests of a running directive keep its file; only starting and ending a directive change
it. -/
theorem Emitter.file_asked {steps : List Request} (h : ∀ r ∈ steps, r.Inner) (e : Emitter) :
    (e.asked steps).file = e.file := by
  induction steps generalizing e with
  | nil => rfl
  | cons r rest ih =>
      rw [asked_cons, ih fun r' hr' => h r' (.tail r hr'), Request.file_perform (h r (.head rest))]

/-- Whether files start with a receipt never changes. -/
theorem Request.receipt_perform (r : Request) (e : Emitter) :
    (r.perform e).2.receipt = e.receipt := by
  by_cases hInner : r.Inner
  · exact congrArg Prod.snd (file_perform hInner e)
  · cases r with
    | reset owner target => rfl
    | finishAt time => exact e.receipt_finishAt time
    | _ => exact (hInner ⟨rfl, rfl⟩).elim

theorem Emitter.receipt_asked (e : Emitter) (requests : List Request) :
    (e.asked requests).receipt = e.receipt := by
  induction requests generalizing e with
  | nil => rfl
  | cons r rest ih => rw [asked_cons, ih, r.receipt_perform]

end Metagen.Emission
