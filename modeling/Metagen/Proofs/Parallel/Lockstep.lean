import Metagen.Eval.Level
import Metagen.Proofs.Emission.Owners
import Metagen.Proofs.Parallel.Shown

/-! Scripts side by side. One script runs after the other directives that ran before it, and so does
the other one, which may also run behind other directives than those. Each step of the second
script ends well whenever that of the first does, with related results, and so it does behind other
directives if they have not overloaded the same macros. Where the first script fails nothing is
asked. -/

namespace Metagen

open Eval Emission HoldsEmitter

variable {α β γ δ : Type}

/-- The step runs inside something that has nothing to do with the emitter. -/
structure RunsInside (enter : Machine → Machine) (leave : Machine → Machine → Machine)
    (step wrapped : EvalM α) : Prop where
  run_iff : ∀ m a m'', wrapped m = .ok a m'' ↔ ∃ m', step (enter m) = .ok a m' ∧ leave m m' = m''
  enters : ∀ m e, enter { m with emitter := e } = { enter m with emitter := e }
  leaves : ∀ m m' e e', leave { m with emitter := e } { m' with emitter := e' } =
    { leave m m' with emitter := e' }

namespace RunsInside

variable {step wrapped : EvalM α} {enter : Machine → Machine} {leave : Machine → Machine → Machine}

theorem emitter_enter (h : RunsInside enter leave step wrapped) (m : Machine) :
    (enter m).emitter = m.emitter := by
  have hEmitter := congrArg Machine.emitter (h.enters m m.emitter)
  exact hEmitter

theorem emitter_leave (h : RunsInside enter leave step wrapped) (m m' : Machine) :
    (leave m m').emitter = m'.emitter := by
  have hEmitter := congrArg Machine.emitter (h.leaves m m' m.emitter m'.emitter)
  exact hEmitter

/-- What is entered is left again. How depends on the machine that was found. -/
theorem entering {leave : Machine → Machine → Machine}
    (hEnter : ∀ m e, enter { m with emitter := e } = { enter m with emitter := e })
    (hLeave : ∀ m m' e e', leave { m with emitter := e } { m' with emitter := e' } =
      { leave m m' with emitter := e' }) (step : EvalM α) :
    RunsInside enter leave step (fun m => Eval.leaving (leave m) step (enter m)) where
  run_iff m a m'' := by
    unfold Eval.leaving
    cases step (enter m) with
    | error stop r => simp
    | ok c r => simp
  enters := hEnter
  leaves := hLeave

/-- A frame is entered and left around the step, and neither looks at the emitter. -/
theorem withFrame (frame : Frame) (step : EvalM α) :
    RunsInside (fun m => { m with frames := frame :: m.frames })
      (fun _ m' => { m' with frames := m'.frames.tail }) step (withFrame frame step) where
  run_iff m a m'' := by
    unfold Eval.withFrame
    cases step { m with frames := frame :: m.frames } with
    | error stop r => simp
    | ok c r => simp
  enters _ _ := rfl
  leaves _ _ _ _ := rfl

theorem withLoop (step : EvalM α) :
    RunsInside (fun m => { m with loops := m.loops + 1 })
      (fun _ m' => { m' with loops := m'.loops - 1 }) step (withLoop step) :=
  entering (fun _ _ => rfl) (fun _ _ _ _ => rfl) step

theorem inScopes (env : Env) (step : EvalM α) :
    RunsInside ({ · with env }) (fun m m' => { m' with env := m.env }) step (inScopes env step) :=
  entering (fun _ _ => rfl) (fun _ _ _ _ => rfl) step

theorem withCall (unit : Nat) (step : EvalM α) :
    RunsInside (fun m => { m with unit, calls := m.calls + 1, loops := 0 })
      (fun m m' => { m' with unit := m.unit, calls := m'.calls - 1, loops := m.loops }) step
      (withCall unit step) :=
  entering (fun _ _ => rfl) (fun _ _ _ _ => rfl) step

end RunsInside

namespace Pairing

variable {g : Pairing}

/-- Two machines that run the same in paired stores. What is running may be called differently. -/
structure Machines (g : Pairing) (m n : Machine) : Prop where
  stores : g.Stores m.store n.store
  emitter : m.emitter = n.emitter
  envs : g.Envs m.env n.env
  calls : m.calls = n.calls
  loops : m.loops = n.loops

theorem sameEmitters_machines (g : Pairing) : SameEmitters g.Machines where
  same _ _ hMachines := hMachines.emitter
  put _ _ _ hMachines := { hMachines with emitter := rfl }

/-- One step of a script follows another. -/
abbrev Lockstep (g : Pairing) (R : α → β → Prop) (first : EvalM α) (second : EvalM β) : Prop :=
  Follows (ledgers g.Machines) R first second

namespace Lockstep

variable {R : α → β → Prop} {first : EvalM α} {second : EvalM β} {v w : Value}

theorem fail (fault : Fault) : g.Lockstep R (fail fault) second := .throw _

/-- Nothing follows a failure. -/
theorem failing (fault : Fault) {next : γ → EvalM α} :
    g.Lockstep R (Eval.fail fault >>= next) second := by
  intro m n _ a m' hRun
  cases hRun

/-- What is done with a machine whose emitter nobody looks at. -/
theorem bindGet {f : Machine → EvalM α} {f' : Machine → EvalM β}
    (h : ∀ m n, g.Machines m n → g.Lockstep R (f m) (f' n))
    (hSame : ∀ n e, f' { n with emitter := e } = f' n) :
    g.Lockstep R (MonadState.get >>= f) (MonadState.get >>= f') := by
  intro m n hMachines a m' hRun
  obtain ⟨b, n', hEnds, hNext, hResult⟩ := h m n hMachines m n hMachines a m' hRun
  refine ⟨b, n', ⟨hEnds.ends, hEnds.leads, ?_⟩, hNext, hResult⟩
  rintro claimed _ ⟨k, hVaries, rfl⟩ hAdmits
  obtain ⟨u, hVaried, hEnd⟩ := hEnds.varied claimed _ ⟨k, hVaries, rfl⟩ hAdmits
  refine ⟨u, ?_, hEnd⟩
  change f' (setEmitter n _) (setEmitter n _) = _
  rw [show f' (setEmitter n _) = f' n from hSame n _]
  exact hVaried

/-- A step that has nothing to do with the emitter. -/
theorem aside (h : ∀ m n, g.Machines m n → ∀ a m', first m = .ok a m' →
      ∃ b n', (∀ e, second { n with emitter := e } = .ok b { n' with emitter := e }) ∧
        n'.emitter = n.emitter ∧ g.Machines m' n' ∧ R a b) :
    g.Lockstep R first second := by
  intro m n hMachines a m' hRun
  obtain ⟨b, n', hSecond, hSame, hNext, hResult⟩ := h m n hMachines a m' hRun
  exact ⟨b, n', ends_of_same hSecond rfl rfl hSame, hNext, hResult⟩

theorem readStore {f : Store → α} {f' : Store → β}
    (h : ∀ s t, g.Stores s t → R (f s) (f' t)) : g.Lockstep R (readStore f) (readStore f') := by
  refine aside fun m n hMachines a m' hRun => ?_
  cases hRun
  exact ⟨f' n.store, n, fun _ => rfl, rfl, hMachines, h _ _ hMachines.stores⟩

/-- A change of the store from the open scopes keeps stores paired if it does so for all paired
scopes. -/
theorem changeStore {f f' : Env → Store → Store}
    (h : ∀ env env' s t, g.Envs env env' → g.Stores s t → g.Stores (f env s) (f' env' t)) :
    g.Lockstep Eq (changeStore f) (changeStore f') := by
  refine aside fun m n hMachines a m' hRun => ?_
  cases hRun
  exact ⟨(), { n with store := f' n.env n.store }, fun _ => rfl, rfl,
    { hMachines with stores := h _ _ _ _ hMachines.envs hMachines.stores }, rfl⟩

/-- Steps of the store are steps of a script that leave everything else as it is. -/
theorem onStore {step : EStateM Fault Store α} {step' : EStateM Fault Store β}
    (h : Follows (.plain g.Stores) R step step') :
    g.Lockstep R (onStore step) (onStore step') := by
  refine aside fun m n hMachines a m' hRun => ?_
  unfold Eval.onStore at hRun
  cases hFirst : step m.store with
  | error fault s =>
      simp only [hFirst] at hRun
      cases hRun
  | ok c s =>
      simp only [hFirst] at hRun
      cases hRun
      obtain ⟨b, t, hSecond, hStores, hResult⟩ := h _ _ hMachines.stores a s hFirst
      refine ⟨b, { n with store := t }, fun e => ?_, rfl, { hMachines with stores := hStores },
        hResult⟩
      simp only [Eval.onStore, hSecond.ends]

/-- New cells are paired as soon as what they hold is. -/
theorem makeCell {f : Store → α × Store} {f' : Store → β × Store}
    (h : ∀ s t, g.Stores s t → g.Stores (f s).2 (f' t).2 ∧ R (f s).1 (f' t).1) :
    g.Lockstep R (makeCell f) (makeCell f') := by
  refine onStore (.plain fun s t hStores a s' hRun => ?_)
  cases hRun
  exact ⟨_, _, rfl, h s t hStores⟩

theorem renderValue (h : g.Values v w) :
    g.Lockstep Eq (renderValue v) (renderValue w) :=
  readStore fun _ _ hStores => hStores.render_eq h

theorem isTrue (h : g.Values v w) : g.Lockstep Eq (isTrue v) (isTrue w) :=
  readStore fun _ _ hStores => hStores.truthy_eq h

/-- The C text of paired values is the same, and there is one on both sides or on neither. -/
theorem cTextOf (h : g.Values v w) : g.Lockstep Eq (cTextOf v) (cTextOf w) := by
  refine aside fun m n hMachines text m' hRun => ?_
  unfold Eval.cTextOf at hRun
  cases hText : v.cText m.store with
  | error type =>
      simp only [hText] at hRun
      cases hRun
  | ok found =>
      simp only [hText] at hRun
      cases hRun
      have hSame := hMachines.stores.cText_eq h
      refine ⟨text, n, fun e => ?_, rfl, hMachines, rfl⟩
      simp only [Eval.cTextOf, ← hSame, hText]

theorem define (hv : g.Values v w) (name : String) :
    g.Lockstep Eq (define name v) (define name w) :=
  changeStore fun _ _ _ _ hEnv hStores => hStores.define hEnv name hv

/-- A change of a machine that its emitter has nothing to do with. -/
theorem modify {change change' : Machine → Machine}
    (h : ∀ m n, g.Machines m n → g.Machines (change m) (change' n))
    (hSame : ∀ m e, change' { m with emitter := e } = { change' m with emitter := e }) :
    g.Lockstep Eq (modify change : EvalM Unit) (modify change') := by
  refine aside fun m n hMachines done m' hRun => ?_
  cases hRun
  refine ⟨(), change' n, fun e => congrArg (EStateM.Result.ok ()) (hSame n e), ?_,
    h m n hMachines, rfl⟩
  have hEmitter := congrArg Machine.emitter (hSame n n.emitter)
  exact hEmitter

theorem mark (span span' : Span) : g.Lockstep Eq (mark span) (mark span') := by
  refine modify (fun m n hMachines => ?_) fun m e => ?_
  · split <;> split <;> exact { hMachines with }
  · dsimp only
    split <;> rfl

/-- A scope that both sides open. -/
theorem pushScope : g.Lockstep Eq pushScope pushScope := by
  refine bindGet (fun m n hMachines => ?_) fun _ _ => rfl
  have hMade : g.Lockstep g.Envs (Eval.makeCell m.env.push) (Eval.makeCell n.env.push) :=
    makeCell fun _ _ hStores => hStores.pushEnv hMachines.envs
  refine hMade.bind fun env env' hEnvs => ?_
  exact modify (fun _ _ hNow => { hNow with envs := hEnvs }) fun _ _ => rfl

/-- Steps inside of something. -/
theorem inside {wrapped : EvalM α} {wrapped' : EvalM β} {enter enter' : Machine → Machine}
    {leave leave' : Machine → Machine → Machine} (hFirst : RunsInside enter leave first wrapped)
    (hSecond : RunsInside enter' leave' second wrapped')
    (hEnter : ∀ m n, g.Machines m n → g.Machines (enter m) (enter' n))
    (hLeave : ∀ m n m' n', g.Machines m n → g.Machines m' n' →
      g.Machines (leave m m') (leave' n n'))
    (h : g.Lockstep R first second) : g.Lockstep R wrapped wrapped' := by
  intro m n hMachines a m'' hRun
  obtain ⟨m', hFirstRun, rfl⟩ := (hFirst.run_iff m a m'').1 hRun
  obtain ⟨b, n', hEnds, hNext, hResult⟩ := h _ _ (hEnter m n hMachines) a m' hFirstRun
  refine ⟨b, leave' n n', ⟨(hSecond.run_iff n b _).2 ⟨n', hEnds.ends, rfl⟩, ?_, ?_⟩,
    hLeave m n m' n' hMachines hNext, hResult⟩
  · have hLeads := hEnds.leads
    change (enter' n).emitter.ledger.GrowsTo n'.emitter.ledger at hLeads
    change n.emitter.ledger.GrowsTo (leave' n n').emitter.ledger
    rwa [hSecond.emitter_leave, ← hSecond.emitter_enter]
  · rintro claimed _ ⟨k, hVaries, rfl⟩ hAdmits
    change (leave' n n').emitter.ledger.Admits claimed at hAdmits
    rw [hSecond.emitter_leave] at hAdmits
    change n.emitter.ledger.Varies claimed k at hVaries
    rw [← hSecond.emitter_enter] at hVaries
    obtain ⟨_, hStep, l, hVaried, rfl⟩ := hEnds.varied claimed _ ⟨k, hVaries, rfl⟩ hAdmits
    refine ⟨_, (hSecond.run_iff _ b _).2
      ⟨{ n' with emitter := n'.emitter.withLedger l }, ?_, rfl⟩, l, ?_, ?_⟩
    · rw [show emitter (enter' n) = emitter n from hSecond.emitter_enter n] at hStep
      rwa [show enter' (setEmitter n _) = setEmitter (enter' n) _ from hSecond.enters n _]
    · change (leave' n n').emitter.ledger.Varies claimed l
      rwa [hSecond.emitter_leave]
    · change leave' { n with emitter := _ } { n' with emitter := _ } =
        { leave' n n' with emitter := (leave' n n').emitter.withLedger l }
      rw [hSecond.leaves, hSecond.emitter_leave]

/-- Frames are for traces, which nobody reads while both steps end well. -/
theorem withFrame (frame frame' : Frame) (h : g.Lockstep R first second) :
    g.Lockstep R (withFrame frame first) (withFrame frame' second) :=
  h.inside (.withFrame frame first) (.withFrame frame' second)
    (fun _ _ hMachines => { hMachines with }) fun _ _ _ _ _ hNext => { hNext with }

theorem withNative (label label' : String) (h : g.Lockstep R first second) :
    g.Lockstep R (withNative label first) (withNative label' second) := h.withFrame _ _

theorem withLoop (h : g.Lockstep R first second) :
    g.Lockstep R (withLoop first) (withLoop second) :=
  h.inside (.withLoop first) (.withLoop second)
    (fun _ _ hMachines => { hMachines with loops := congrArg (· + 1) hMachines.loops })
    fun _ _ _ _ _ hNext => { hNext with loops := congrArg (· - 1) hNext.loops }

theorem inScopes {env env' : Env} (hEnvs : g.Envs env env') (h : g.Lockstep R first second) :
    g.Lockstep R (inScopes env first) (inScopes env' second) :=
  h.inside (.inScopes env first) (.inScopes env' second)
    (fun _ _ hMachines => { hMachines with envs := hEnvs })
    fun _ _ _ _ hMachines hNext => { hNext with envs := hMachines.envs }

/-- Steps that follow each other do so in a new scope that both sides open and leave. -/
theorem inNewScope (h : g.Lockstep R first second) :
    g.Lockstep R (inNewScope first) (inNewScope second) :=
  pushScope.bindSame fun _ => h.inside
    (.entering (fun _ _ => rfl) (fun _ _ _ _ => rfl) first)
    (.entering (fun _ _ => rfl) (fun _ _ _ _ => rfl) second) (fun _ _ hMachines => hMachines)
    fun _ _ _ _ _ hNext => { hNext with envs := hNext.envs.pop }

/-- The scripts that a function was written in may have numbers of their own. -/
theorem withCall (unit unit' : Nat) (h : g.Lockstep R first second) :
    g.Lockstep R (withCall unit first) (withCall unit' second) :=
  h.inside (.withCall unit first) (.withCall unit' second)
    (fun _ _ hMachines =>
      { hMachines with calls := congrArg (· + 1) hMachines.calls, loops := rfl })
    fun _ _ _ _ hMachines hNext =>
      { hNext with calls := congrArg (· - 1) hNext.calls, loops := hMachines.loops }

theorem changeEmitter {change : Emitter → Emitter} {layout : Layout}
    (h : ∀ e, change e = e.after layout) :
    g.Lockstep Eq (changeEmitter change : EvalM Unit) (changeEmitter change) :=
  g.sameEmitters_machines.changeEmitter (.after h)

theorem liftEmit (wrap : EmissionError → Stop) {emit : Emit α}
    (h : Follows (ledgers Eq) Eq emit emit) :
    g.Lockstep Eq (liftEmit wrap emit : EvalM α) (liftEmit wrap emit) :=
  g.sameEmitters_machines.liftEmit wrap h

theorem withScope (scope : Scope) (h : g.Lockstep R first second) :
    g.Lockstep R (withScope scope first) (withScope scope second) :=
  g.sameEmitters_machines.withScope scope h

theorem withSection (text : String) (h : g.Lockstep R first second) :
    g.Lockstep R (withSection text first) (withSection text second) :=
  g.sameEmitters_machines.withSection text h

end Lockstep

end Pairing

end Metagen
