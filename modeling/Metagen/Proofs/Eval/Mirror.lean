import Metagen.Proofs.Eval.Orderly

/-! Two evaluations of the same code from the same machine. One mirrors the other if both end with
the same result in the same machine, and with the surroundings of the code as they were. Failures
are compared by what they tell, so that one evaluation may tell earlier than the other what was
running. -/

namespace Metagen.Eval

open Script Emission

/-- The frame as it is told does not depend on earlier lines. -/
@[simp] theorem Frame.atLine_atLine (f : Frame) (line other : Nat) :
    (f.atLine line).atLine other = f.atLine other := by
  obtain ⟨site, _, label⟩ := f
  cases site <;> rfl

@[simp] theorem Frame.label_atLine (f : Frame) (line : Nat) : (f.atLine line).label = f.label := by
  obtain ⟨site, _, label⟩ := f
  cases site <;> rfl

/-- Frames, but for the line that the innermost one is at. -/
def unlined (frames : List Frame) : List Frame := frames.modifyHead (·.atLine 0)

/-- Frames are the same but for the line of the innermost one exactly if they differ there alone. -/
theorem unlined_cons_iff {f : Frame} {rest frames : List Frame} :
    unlined frames = unlined (f :: rest) ↔
      ∃ g, frames = g :: rest ∧ g.atLine 0 = f.atLine 0 := by
  cases frames with
  | nil => simp [unlined]
  | cons g others =>
      constructor
      · intro h
        obtain ⟨hHead, rfl⟩ := List.cons.inj h
        exact ⟨g, rfl, hHead⟩
      · rintro ⟨_, ⟨⟩, hSame⟩
        simp [unlined, hSame]

theorem length_eq_of_unlined {frames frames' : List Frame} (h : unlined frames = unlined frames') :
    frames.length = frames'.length := by
  have hLength := congrArg List.length h
  simpa [unlined] using hLength

/-- Only what the frame stands for counts. -/
theorem label_eq_of_unlined {f g : Frame} (h : g.atLine 0 = f.atLine 0) : g.label = f.label := by
  have hLabel := congrArg Frame.label h
  simpa using hLabel

/-- What surrounds running code: the frames around it, but for the line that it has come to, its
script, the scopes that are open in it, and the counters. -/
structure Surroundings where
  frames : List Frame
  unit : Nat
  env : Env
  calls : Nat
  loops : Nat

/-- The surroundings of the code that a machine runs. -/
def Machine.around (m : Machine) : Surroundings :=
  ⟨unlined m.frames, m.unit, m.env, m.calls, m.loops⟩

def Surroundings.looped (around : Surroundings) : Surroundings :=
  { around with loops := around.loops + 1 }

/-- The machine with a new scope open inside others. -/
def Machine.pushed (m : Machine) (env : Env) : Machine :=
  { m with store := (env.push m.store).2, env := (env.push m.store).1 }

def Surroundings.pushed (around : Surroundings) (s : Store) : Surroundings :=
  { around with env := (around.env.push s).1 }

/-- The machine when the running code has come to the line where a range starts. -/
def Machine.marked (m : Machine) (span : Span) : Machine :=
  { m with frames := m.frames.modifyHead (·.atLine span.start.line) }

theorem mark_eq_marked (m : Machine) (span : Span) : mark span m = .ok () (m.marked span) := by
  obtain ⟨store, emitter, frames, unit, env, calls, loops⟩ := m
  cases frames <;> rfl

@[simp] theorem around_marked (m : Machine) (span : Span) : (m.marked span).around = m.around := by
  obtain ⟨store, emitter, frames, unit, env, calls, loops⟩ := m
  cases frames with
  | nil => rfl
  | cons f rest => simp [Machine.around, Machine.marked, unlined]

/-- How failures of two evaluations are compared, given the frames that they are in. -/
structure Telling where
  tells : List Frame → Stop → Stop → Prop
  raised : ∀ frames fault, tells frames (.failed { fault }) (.failed { fault })
  outOfFuel : ∀ frames, tells frames .outOfFuel .outOfFuel
  /-- Failures that leave a call. -/
  leave : ∀ {f : Frame} {rest : List Frame} {stop stop' : Stop}, f.label.isSome = true →
    tells (f :: rest) stop stop' →
      tells rest (stop.traced (f :: rest)) (stop'.traced (f :: rest))

variable {t : Telling} {around : Surroundings} {α β : Type}

/-- The two ends are the same, in these surroundings, and a result is good. -/
def EndsAlike (t : Telling) (around : Surroundings) (good : α → Prop) :
    EStateM.Result Stop Machine α → EStateM.Result Stop Machine α → Prop
  | .ok a m, other => other = .ok a m ∧ m.around = around ∧ good a
  | .error stop m, other =>
    ∃ stop', other = .error stop' m ∧ m.around = around ∧ t.tells m.frames stop stop'

/-- From every machine in these surroundings, the two evaluations end alike. -/
def Mirrors (t : Telling) (around : Surroundings) (good : α → Prop) (action mirror : EvalM α) :
    Prop :=
  ∀ m, m.around = around → EndsAlike t around good (action m) (mirror m)

/-- The machine with another store and emitter. -/
def Machine.holding (m : Machine) (store : Store) (emitter : Emitter) : Machine :=
  { m with store, emitter }

/-- Steps that only change the store and the emitter, and whose failures have told nothing yet. -/
def QuietStep (action : EvalM α) : Prop :=
  ∀ m, ∃ s e, (∃ a, action m = .ok a (m.holding s e)) ∨
    ∃ fault, action m = .error (.failed { fault }) (m.holding s e)

namespace QuietStep

theorem pure (a : α) : QuietStep (pure a) := fun m => ⟨m.store, m.emitter, .inl ⟨a, rfl⟩⟩

theorem fail (fault : Fault) : QuietStep (fail fault : EvalM α) :=
  fun m => ⟨m.store, m.emitter, .inr ⟨fault, rfl⟩⟩

theorem readStore (f : Store → α) : QuietStep (readStore f) :=
  fun m => ⟨m.store, m.emitter, .inl ⟨_, rfl⟩⟩

theorem changeStore (f : Env → Store → Store) : QuietStep (changeStore f) :=
  fun m => ⟨f m.env m.store, m.emitter, .inl ⟨_, rfl⟩⟩

/-- A step of the store is quiet: it changes nothing that surrounds the running code. -/
theorem onStore (step : EStateM Fault Store α) : QuietStep (onStore step) := by
  intro m
  rw [Eval.onStore]
  cases step m.store with
  | ok a s => exact ⟨s, m.emitter, .inl ⟨a, rfl⟩⟩
  | error fault s => exact ⟨s, m.emitter, .inr ⟨fault, rfl⟩⟩

theorem makeCell (f : Store → α × Store) : QuietStep (makeCell f) := onStore _

theorem renderValue (v : Value) : QuietStep (renderValue v) := readStore _

theorem isTrue (v : Value) : QuietStep (isTrue v) := readStore _

theorem define (name : String) (v : Value) : QuietStep (define name v) := changeStore _

theorem cTextOf (v : Value) : QuietStep (cTextOf v) := by
  intro m
  unfold Eval.cTextOf
  cases v.cText m.store with
  | ok text => exact ⟨m.store, m.emitter, .inl ⟨text, rfl⟩⟩
  | error type => exact ⟨m.store, m.emitter, .inr ⟨_, rfl⟩⟩

theorem changeEmitter (change : Emitter → Emitter) :
    QuietStep (Emission.changeEmitter change : EvalM Unit) :=
  fun m => ⟨m.store, change m.emitter, .inl ⟨_, rfl⟩⟩

theorem liftEmit (emit : Emit α) : QuietStep (Emission.liftEmit Stop.ofRefusal emit : EvalM α) := by
  intro m
  rw [Emission.liftEmit]
  cases emit (HoldsEmitter.emitter m) with
  | ok a e => exact ⟨m.store, e, .inl ⟨a, rfl⟩⟩
  | error error e => exact ⟨m.store, e, .inr ⟨_, rfl⟩⟩

end QuietStep

namespace EndsAlike

variable {good : α → Prop} {r r' : EStateM.Result Stop Machine α}

/-- Whatever comes of two results that end alike, the surroundings are as they were. -/
theorem endState_around (h : EndsAlike t around good r r') : (endState r).around = around := by
  cases r with
  | ok a m => exact h.2.1
  | error stop m =>
      obtain ⟨_, _, hAround, _⟩ := h
      exact hAround

/-- A sequence, from one machine. -/
theorem bind {mid : β → Prop} {first first' : EvalM β} {second second' : β → EvalM α} {m : Machine}
    (hFirst : EndsAlike t around mid (first m) (first' m))
    (hSecond : ∀ b, mid b → Mirrors t around good (second b) (second' b)) :
    EndsAlike t around good ((first >>= second) m) ((first' >>= second') m) := by
  change EndsAlike t around good (EStateM.bind first second m) (EStateM.bind first' second' m)
  rw [EStateM.bind, EStateM.bind]
  cases hRun : first m with
  | ok b m' =>
      rw [hRun] at hFirst
      obtain ⟨hOther, hAround, hMid⟩ := hFirst
      rw [hOther]
      exact hSecond b hMid m' hAround
  | error stop m' =>
      rw [hRun] at hFirst
      obtain ⟨stop', hOther, hEnd⟩ := hFirst
      rw [hOther]
      exact ⟨stop', rfl, hEnd⟩

end EndsAlike

/-- Two evaluations that have entered the same and leave it again. -/
theorem EndsAlike.leaving {good : α → Prop} {action mirror : EvalM α} {m : Machine}
    {inside : Surroundings} {leave : Machine → Machine}
    (h : EndsAlike t inside good (action m) (mirror m))
    (hLeave : ∀ m', m'.around = inside → (leave m').around = around)
    (hFrames : ∀ m', (leave m').frames = m'.frames) :
    EndsAlike t around good (Eval.leaving leave action m) (Eval.leaving leave mirror m) := by
  rw [Eval.leaving, Eval.leaving]
  cases hRun : action m with
  | ok a m' =>
      rw [hRun] at h
      obtain ⟨hOther, hInside, hGood⟩ := h
      rw [hOther]
      exact ⟨rfl, hLeave m' hInside, hGood⟩
  | error stop m' =>
      rw [hRun] at h
      obtain ⟨stop', hOther, hInside, hTells⟩ := h
      rw [hOther]
      exact ⟨stop', rfl, hLeave m' hInside, (hFrames m').symm ▸ hTells⟩

/-- A quiet step before two evaluations from one machine. -/
theorem EndsAlike.after {good : α → Prop} {first : EvalM β} {second second' : β → EvalM α}
    {m : Machine} (hFirst : QuietStep first)
    (hSecond : ∀ b s e, EndsAlike t around good (second b (m.holding s e))
      (second' b (m.holding s e))) (hAround : m.around = around) :
    EndsAlike t around good ((first >>= second) m) ((first >>= second') m) := by
  change EndsAlike t around good (EStateM.bind first second m) (EStateM.bind first second' m)
  rw [EStateM.bind, EStateM.bind]
  obtain ⟨s, e, ⟨b, hRun⟩ | ⟨fault, hRun⟩⟩ := hFirst m
  · rw [hRun]
    exact hSecond b s e
  · rw [hRun]
    exact ⟨_, rfl, hAround, t.raised _ _⟩

/-- A quiet step mirrors itself from wherever it runs, since it neither enters nor leaves
anything. -/
theorem QuietStep.endsAlike {action : EvalM α} (h : QuietStep action) (t : Telling) (m : Machine) :
    EndsAlike t m.around Any (action m) (action m) := by
  obtain ⟨s, e, ⟨a, hRun⟩ | ⟨fault, hRun⟩⟩ := h m
  · rw [hRun]
    exact ⟨rfl, rfl, trivial⟩
  · rw [hRun]
    exact ⟨_, rfl, rfl, t.raised _ _⟩

theorem QuietStep.mirrors {action : EvalM α} (h : QuietStep action) :
    Mirrors t around Any action action :=
  fun m hAround => hAround ▸ h.endsAlike t m

namespace Mirrors

variable {good : α → Prop} {action mirror : EvalM α}

theorem pure {a : α} (h : good a) : Mirrors t around good (pure a) (pure a) :=
  fun _ hAround => ⟨rfl, hAround, h⟩

theorem fail (fault : Fault) : Mirrors t around good (fail fault) (fail fault) :=
  fun _ hAround => ⟨_, rfl, hAround, t.raised _ _⟩

theorem outOfFuel : Mirrors t around good (throw .outOfFuel : EvalM α) (throw .outOfFuel) :=
  fun _ hAround => ⟨_, rfl, hAround, t.outOfFuel _⟩

theorem bind {mid : β → Prop} {first first' : EvalM β} {second second' : β → EvalM α}
    (hFirst : Mirrors t around mid first first')
    (hSecond : ∀ b, mid b → Mirrors t around good (second b) (second' b)) :
    Mirrors t around good (first >>= second) (first' >>= second') :=
  fun m hAround => (hFirst m hAround).bind hSecond

theorem bindAny {first first' : EvalM β} {second second' : β → EvalM α}
    (hFirst : Mirrors t around Any first first')
    (hSecond : ∀ b, Mirrors t around good (second b) (second' b)) :
    Mirrors t around good (first >>= second) (first' >>= second') :=
  hFirst.bind fun b _ => hSecond b

/-- A quiet step before two evaluations. -/
theorem after {first : EvalM β} {second second' : β → EvalM α} (hFirst : QuietStep first)
    (hSecond : ∀ b, Mirrors t around good (second b) (second' b)) :
    Mirrors t around good (first >>= second) (first >>= second') :=
  hFirst.mirrors.bindAny hSecond

theorem map {f : α → β} (h : Mirrors t around Any action mirror) :
    Mirrors t around Any (f <$> action) (f <$> mirror) := by
  rw [map_eq_pure_bind, map_eq_pure_bind]
  exact h.bindAny fun _ => pure trivial

/-- A condition that is decided before both steps run keeps them mirrors of each other. -/
theorem ite {p : Prop} [Decidable p] {other other' : EvalM α}
    (h : Mirrors t around good action mirror) (hOther : Mirrors t around good other other') :
    Mirrors t around good (if p then action else other) (if p then mirror else other') := by
  split
  · exact h
  · exact hOther

/-- Going through items is mirrored if it is for each of them. -/
theorem mapM {items : List β} {f f' : β → EvalM α}
    (hItem : ∀ b ∈ items, Mirrors t around Any (f b) (f' b)) :
    Mirrors t around Any (items.mapM f) (items.mapM f') := by
  induction items with
  | nil =>
      rw [List.mapM_nil, List.mapM_nil]
      exact pure trivial
  | cons item rest ih =>
      rw [List.mapM_cons, List.mapM_cons]
      refine (hItem item List.mem_cons_self).bindAny fun _ => ?_
      refine (ih fun b hb => hItem b (List.mem_cons_of_mem _ hb)).bindAny fun _ => ?_
      exact pure trivial

/-- Going through items with a result that grows is mirrored if each step is. -/
theorem foldlM {items : List β} {f f' : α → β → EvalM α} (a : α)
    (hStep : ∀ b ∈ items, ∀ a, Mirrors t around Any (f a b) (f' a b)) :
    Mirrors t around Any (items.foldlM f a) (items.foldlM f' a) := by
  induction items generalizing a with
  | nil =>
      rw [List.foldlM_nil, List.foldlM_nil]
      exact pure trivial
  | cons item rest ih =>
      rw [List.foldlM_cons, List.foldlM_cons]
      refine (hStep item List.mem_cons_self a).bindAny fun b => ?_
      exact ih b fun c hc => hStep c (List.mem_cons_of_mem _ hc)

theorem andAfter (change : Emitter → Emitter) (h : Mirrors t around good action mirror) :
    Mirrors t around good (Emission.andAfter action change) (Emission.andAfter mirror change) := by
  intro m hAround
  have hEnds := h m hAround
  rw [Emission.andAfter, Emission.andAfter]
  cases hRun : action m with
  | ok a m' =>
      rw [hRun] at hEnds
      obtain ⟨hOther, hEnd⟩ := hEnds
      rw [hOther]
      exact ⟨rfl, hEnd⟩
  | error stop m' =>
      rw [hRun] at hEnds
      obtain ⟨stop', hOther, hEnd⟩ := hEnds
      rw [hOther]
      exact ⟨stop', rfl, hEnd⟩

theorem withScope (scope : Scope) (h : Mirrors t around good action mirror) :
    Mirrors t around good (Emission.withScope scope action) (Emission.withScope scope mirror) :=
  fun m hAround => h.andAfter (·.exit (m.emitter.enter scope).1)
    { m with emitter := (m.emitter.enter scope).2 } hAround

theorem withSection (text : String) (h : Mirrors t around good action mirror) :
    Mirrors t around good (Emission.withSection text action) (Emission.withSection text mirror) :=
  fun m hAround => h.andAfter (·.endSection)
    { m with emitter := m.emitter.beginSection text } hAround

/-- The running code comes to a line, and goes on from there. -/
theorem markThen {span : Span}
    (h : ∀ m : Machine, m.around = around → EndsAlike t around good (action (m.marked span))
      (mirror (m.marked span))) :
    Mirrors t around good (mark span >>= fun _ => action) (mark span >>= fun _ => mirror) := by
  intro m hAround
  change EndsAlike t around good (EStateM.bind (mark span) _ m) (EStateM.bind (mark span) _ m)
  rw [EStateM.bind, EStateM.bind, mark_eq_marked]
  exact h m hAround

theorem mark {span : Span} (h : Mirrors t around good action mirror) :
    Mirrors t around good (mark span >>= fun _ => action) (Eval.mark span >>= fun _ => mirror) :=
  markThen fun m hAround => h _ ((around_marked m span).trans hAround)

/-- One more loop is around the code until it has ended, and then one less. -/
theorem withLoop (h : Mirrors t around.looped good action mirror) :
    Mirrors t around good (withLoop action) (withLoop mirror) := by
  rintro m rfl
  refine (h { m with loops := m.loops + 1 } rfl).leaving (fun m' hInside => ?_) fun _ => rfl
  have hSame := congrArg (fun a => { a with loops := a.loops - 1 }) hInside
  exact hSame

/-- One more scope is open until the code has ended, and then it is left. -/
theorem inNewScope (h : ∀ s, Mirrors t (around.pushed s) good action mirror) :
    Mirrors t around good (inNewScope action) (inNewScope mirror) := by
  rintro m rfl
  refine (h m.store (m.pushed m.env) rfl).leaving (fun m' hInside => ?_) fun _ => rfl
  have hSame := congrArg (fun a => { a with env := a.env.pop }) hInside
  exact hSame

end Mirrors

def Machine.inside (m : Machine) (frame : Frame) : Surroundings :=
  { m.around with frames := frame.atLine 0 :: m.frames }

/-- What runs inside a frame leaves the frames around it exactly as they were. -/
theorem frames_of_inside {m m' : Machine} {frame : Frame} (h : m'.around = m.inside frame) :
    ∃ f, m'.frames = f :: m.frames ∧ f.label = frame.label := by
  have hFrames : unlined m'.frames = unlined (frame :: m.frames) :=
    congrArg Surroundings.frames h
  obtain ⟨f, hf, hSame⟩ := unlined_cons_iff.1 hFrames
  exact ⟨f, hf, label_eq_of_unlined hSame⟩

theorem around_leave {m m' : Machine} {frame : Frame} (h : m'.around = m.inside frame) :
    Machine.around { m' with frames := m'.frames.tail } = m.around := by
  obtain ⟨f, hf, -⟩ := frames_of_inside h
  rw [hf]
  exact congrArg (fun a => { a with frames := unlined m.frames }) h

namespace EndsAlike

variable {good : α → Prop} {action mirror : EvalM α}

/-- A labelled frame is left on both sides with the failure traced in it, so that what is around it
sees the same. -/
theorem withFrame {frame : Frame} (hLabel : frame.label.isSome = true) (m : Machine)
    (h : Mirrors t (m.inside frame) good action mirror) :
    EndsAlike t m.around good (withFrame frame action m) (withFrame frame mirror m) := by
  have hEnds := h { m with frames := frame :: m.frames } rfl
  rw [Eval.withFrame, Eval.withFrame]
  cases hRun : action { m with frames := frame :: m.frames } with
  | ok a m' =>
      rw [hRun] at hEnds
      obtain ⟨hOther, hInside, hGood⟩ := hEnds
      rw [hOther]
      exact ⟨rfl, around_leave hInside, hGood⟩
  | error stop m' =>
      rw [hRun] at hEnds
      obtain ⟨stop', hOther, hInside, hTells⟩ := hEnds
      rw [hOther]
      obtain ⟨f, hf, hSame⟩ := frames_of_inside hInside
      refine ⟨_, rfl, around_leave hInside, ?_⟩
      rw [hf] at hTells
      rw [hf]
      exact t.leave (hSame ▸ hLabel) hTells

theorem withNative (label : String) (m : Machine)
    (h : Mirrors t (m.inside { site := .native, line := 0, label := some label }) good
      action mirror) :
    EndsAlike t m.around good (withNative label action m) (withNative label mirror m) :=
  withFrame rfl m h

/-- The surroundings of the body of a call. One more call is in progress until the body has ended,
and then one less. -/
theorem withCall {unit : Nat} {frame : Frame} (hLabel : frame.label.isSome = true) (m : Machine)
    (h : Mirrors t ⟨frame.atLine 0 :: m.frames, unit, m.env, m.calls + 1, 0⟩ good action mirror) :
    EndsAlike t m.around good (withCall unit (Eval.withFrame frame action) m)
      (withCall unit (Eval.withFrame frame mirror) m) := by
  have hEnds := withFrame hLabel { m with unit, calls := m.calls + 1, loops := 0 } h
  refine hEnds.leaving (fun m' hInside => ?_) fun _ => rfl
  have hSame := congrArg
    (fun a => { a with unit := m.unit, calls := a.calls - 1, loops := m.loops }) hInside
  exact hSame

/-- Whatever scopes the code is left with that runs in others, those around it are as they were. -/
theorem inScopes {env : Env} {m : Machine} (last : Env)
    (h : EndsAlike t { m.around with env := last } good (action { m with env })
      (mirror { m with env })) :
    EndsAlike t m.around good (inScopes env action m) (inScopes env mirror m) := by
  refine h.leaving (fun m' hInside => ?_) fun _ => rfl
  have hSame := congrArg (fun a => { a with env := m.env }) hInside
  exact hSame

end EndsAlike

end Metagen.Eval
