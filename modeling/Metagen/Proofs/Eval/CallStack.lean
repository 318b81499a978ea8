import Metagen.Proofs.Eval.Surroundings
import Metagen.Proofs.Eval.Traces

/-! The trace of a failure is the stack of the calls that were in progress when it was raised.

An evaluator that is given the calls in progress says what this stack is, independently of the
frames that the machine keeps: each call adds its frame to those around it, of which the innermost
is at the line where the call is written. This evaluator traces a failure where it is raised, while
the other does so only where the failure leaves a frame. They do the same, so that no trace is
missed, comes too late, or is changed on the way out. -/

namespace Metagen.Eval

open Script Emission

/-- The frame of what is no script. -/
def nativeFrame (label : String) : Frame := { site := .native, line := 0, label := some label }

/-- The calls in progress when a call is made that is written in a certain range. -/
def callingFrom (calls : List Frame) (span : Span) : List Frame :=
  calls.modifyHead (·.atLine span.start.line)

/-- The line that the running code has come to. -/
def Machine.line (m : Machine) : Nat := (m.frames.head?.map (·.line)).getD 0

/-- Trace a failure where it is raised: it tells the calls in progress, of which the innermost is at
the line that has been reached. A failure with a trace keeps it. -/
def raisingIn {α : Type} (calls : List Frame) (action : EvalM α) : EvalM α := fun m =>
  match action m with
  | .ok a m' => .ok a m'
  | .error stop m' => .error (stop.traced (calls.modifyHead (·.atLine m'.line))) m'

mutual

def exprDuring : Nat → List Frame → Expr → EvalM Value
  | 0, _, _ => throw .outOfFuel
  | fuel + 1, calls, e =>
    let calling := callingFrom calls e.span
    let ev : Level := ⟨fuel, exprDuring fuel calls, stmtDuring fuel calls, callDuring fuel calling⟩
    let generate (method : String) (args : Args) : EvalM Value :=
      let inside := nativeFrame ("Meta." ++ method) :: calling
      withNative ("Meta." ++ method) (raisingIn inside (Generator.perform
        ⟨fuel, exprDuring fuel inside, stmtDuring fuel inside, callDuring fuel inside⟩ method args))
    raisingIn calls (evalExpr ev generate e)

def stmtDuring : Nat → List Frame → Stmt → EvalM Flow
  | 0, _, _ => throw .outOfFuel
  | fuel + 1, calls, s =>
    raisingIn calls (runStmt ⟨fuel, exprDuring fuel calls, stmtDuring fuel calls,
      callDuring fuel calls⟩ s)

/-- Call a value during certain calls, which this call adds to. -/
def callDuring : Nat → List Frame → Value → Args → EvalM Value
  | 0, _, _, _ => throw .outOfFuel
  | fuel + 1, calls, function, args =>
    raisingIn calls (callingWith
      (fun closure =>
        let inside := frameOf closure :: calls
        callClosure ⟨fuel, exprDuring fuel inside, stmtDuring fuel inside, callDuring fuel inside⟩
          closure args)
      (fun b => withNative b.name (raisingIn (nativeFrame b.name :: calls)
        (onStore ((Native.call b).run' args)))) function)

end

/-- The evaluator of parts during certain calls. Calls are made from `calling`. -/
def levelDuring (fuel : Nat) (calls calling : List Frame) : Level :=
  ⟨fuel, exprDuring fuel calls, stmtDuring fuel calls, callDuring fuel calling⟩

def runProgramDuring (fuel : Nat) (program : Program) (unit : Nat) (env : Env) : EvalM Unit := do
  modify ({ · with unit, env })
  let top := topFrame unit program.span.start.line
  withFrame top (raisingIn [top] (runTop (levelDuring fuel [top] [top]) program.stmts))

theorem Frame.atLine_line {f g : Frame} (h : g.atLine 0 = f.atLine 0) : f.atLine g.line = g := by
  obtain ⟨site, line, label⟩ := g
  obtain ⟨site', line', label'⟩ := f
  cases site <;> cases site' <;> simp_all [Frame.atLine]

theorem modifyHead_of_unlined {frames calls : List Frame} (h : unlined frames = unlined calls)
    (line : Nat) : frames.modifyHead (·.atLine line) = calls.modifyHead (·.atLine line) := by
  have hLines := congrArg (List.modifyHead (·.atLine line)) h
  simpa [unlined, Function.comp_def] using hLines

/-- The frames of a machine are told by the calls in progress and the line. -/
theorem frames_eq_of_unlined {m : Machine} {calls : List Frame}
    (h : unlined m.frames = unlined calls) : calls.modifyHead (·.atLine m.line) = m.frames := by
  cases calls with
  | nil =>
      have hLength := length_eq_of_unlined h
      rw [List.length_nil] at hLength
      rw [List.eq_nil_of_length_eq_zero hLength]
      rfl
  | cons f rest =>
      obtain ⟨g, hFrames, hSame⟩ := unlined_cons_iff.1 h
      have hLine : m.line = g.line := by
        rw [Machine.line, hFrames]
        rfl
      rw [hFrames, hLine, List.modifyHead_cons, Frame.atLine_line hSame]

/-- A failure that was traced in one frame keeps its trace in all frames around it. -/
@[simp] theorem traced_traced (stop : Stop) (f : Frame) (rest frames : List Frame) :
    (stop.traced (f :: rest)).traced frames = stop.traced (f :: rest) := by
  cases stop with
  | outOfFuel => rfl
  | failed error =>
      simp only [Stop.traced]
      split
      · rfl
      · rfl

/-- Tracing a failure twice in the same frames is tracing it once. -/
@[simp] theorem traced_self (stop : Stop) (frames : List Frame) :
    (stop.traced frames).traced frames = stop.traced frames := by
  cases frames with
  | nil =>
      cases stop with
      | outOfFuel => rfl
      | failed error => cases hTrace : error.trace <;> simp [Stop.traced, hTrace]
  | cons f rest => exact traced_traced stop f rest _

/-- A failure that tells these frames, but for the line of the innermost one, and inside of them
frames of calls. -/
def Stop.ToldIn (frames : List Frame) : Stop → Prop
  | .failed error => ∃ inner outer, error.trace = inner ++ outer ∧ unlined outer = unlined frames ∧
      ∀ f ∈ inner, f.label.isSome = true
  | .outOfFuel => True

/-- A failure that is told in a labelled frame is told in those around it, as a labelled frame is
that of a call. -/
theorem Stop.ToldIn.leave {f : Frame} {rest : List Frame} {stop : Stop}
    (hLabel : f.label.isSome = true) (h : stop.ToldIn (f :: rest)) : stop.ToldIn rest := by
  cases stop with
  | outOfFuel => trivial
  | failed error =>
      obtain ⟨inner, outer, hTrace, hOuter, hInner⟩ := h
      obtain ⟨g, rfl, hSame⟩ := unlined_cons_iff.1 hOuter
      refine ⟨inner ++ [g], rest, by simp [hTrace], rfl, fun k hk => ?_⟩
      rcases List.mem_append.1 hk with hk | hk
      · exact hInner k hk
      · rw [List.mem_singleton.1 hk, label_eq_of_unlined hSame]
        exact hLabel

/-- Failures tell the same, if those that have told nothing are traced with the frames. -/
def Telling.atRaise : Telling where
  tells frames stop stop' :=
    stop.traced frames = stop'.traced frames ∧ (stop.traced frames).ToldIn frames
  raised frames _ := ⟨rfl, [], frames, rfl, rfl, by simp⟩
  outOfFuel _ := ⟨rfl, trivial⟩
  leave hLabel h := by
    rw [traced_traced, traced_traced]
    exact ⟨h.1, h.2.leave hLabel⟩

/-- A mirror that hands its failures the stack of calls ends like the action whose frames are these
calls. -/
theorem EndsAlike.raisingIn {α : Type} {good : α → Prop} {calls : List Frame} {m : Machine}
    {action mirror : EvalM α} (hCalls : unlined m.frames = unlined calls)
    (h : EndsAlike .atRaise m.around good (action m) (mirror m)) :
    EndsAlike .atRaise m.around good (action m) (raisingIn calls mirror m) := by
  rw [Eval.raisingIn]
  cases hRun : action m with
  | ok a m' =>
      rw [hRun] at h
      obtain ⟨hOther, hEnd⟩ := h
      rw [hOther]
      exact ⟨rfl, hEnd⟩
  | error stop m' =>
      rw [hRun] at h
      obtain ⟨stop', hOther, hAround, hTells⟩ := h
      rw [hOther]
      have hFrames : unlined m'.frames = unlined calls :=
        (congrArg Surroundings.frames hAround).trans hCalls
      refine ⟨_, rfl, hAround, ?_⟩
      rw [frames_eq_of_unlined hFrames]
      exact ⟨hTells.1.trans (traced_self stop' m'.frames).symm, hTells.2⟩

/-- What mirrors an action that raises failures in certain frames also does so when it is handed
these frames as calls. -/
theorem Mirrors.raisingIn {α : Type} {good : α → Prop} {around : Surroundings} {calls : List Frame}
    {action mirror : EvalM α} (hCalls : around.frames = unlined calls)
    (h : Mirrors .atRaise around good action mirror) :
    Mirrors .atRaise around good action (raisingIn calls mirror) := by
  intro m hAround
  subst hAround
  exact (h m rfl).raisingIn hCalls

/-- The frame of what is no script has no line that could be ignored. -/
theorem unlined_nativeFrame {frames calls : List Frame} {label : String}
    (h : unlined frames = nativeFrame label :: calls) : frames = nativeFrame label :: calls := by
  have hSame : unlined frames = unlined (nativeFrame label :: calls) := h
  obtain ⟨g, rfl, hHead⟩ := unlined_cons_iff.1 hSame
  rw [← Frame.atLine_line hHead]
  rfl

/-- Given the calls in progress, the evaluator ends as the other does, and traces each failure where
it is raised as the other does later. -/
theorem levelsMirror_during (fuel : Nat) (calls calling : List Frame) :
    LevelsMirror .atRaise (·.frames = unlined calls) (·.frames = unlined calls)
      (·.frames = calling) (level fuel) (levelDuring fuel calls calling) := by
  induction fuel generalizing calls calling with
  | zero =>
      constructor
      · rfl
      · exact fun _ _ => .outOfFuel
      · exact fun _ _ => .outOfFuel
      · exact fun _ _ _ => ⟨_, rfl, rfl, rfl, trivial⟩
  | succ fuel ih =>
      constructor
      · rfl
      · intro around hHere e
        have hCalling : ∀ m : Machine, m.around = around →
            (m.marked e.span).frames = callingFrom calls e.span := fun m hAround =>
          modifyHead_of_unlined ((congrArg Surroundings.frames hAround).trans hHere) _
        refine Mirrors.raisingIn hHere ?_
        refine Mirrors.evalExpr (ih calls _) hHere e hCalling ?_
        intro m hAround method args
        have hSame := (around_marked m e.span).trans hAround
        rw [← hSame, Generator.call_eq_withNative]
        refine EndsAlike.withNative _ _ ?_
        have hInside : ((m.marked e.span).inside (nativeFrame ("Meta." ++ method))).frames =
            nativeFrame ("Meta." ++ method) :: callingFrom calls e.span :=
          congrArg _ (hCalling m hAround)
        refine Mirrors.raisingIn hInside ?_
        refine (ih (nativeFrame ("Meta." ++ method) :: callingFrom calls e.span) _).perform
          (fun m' hAround' => ?_) method args
        exact unlined_nativeFrame ((congrArg Surroundings.frames hAround').trans hInside)
      · intro around hHere s
        refine Mirrors.raisingIn hHere ?_
        exact Mirrors.runStmt (ih calls calls) hHere hHere (fun _ => hHere) (fun _ => hHere) s
      · intro m hCalling function args
        have hHere : unlined m.frames = unlined calling := congrArg unlined hCalling
        change EndsAlike _ _ _ (callValue (level fuel) function args m) _
        rw [callValue_eq]
        refine EndsAlike.raisingIn hHere ?_
        refine EndsAlike.callingWith function (fun closure => ?_) (fun b => ?_)
        · have hInside : (m.calling closure).frames = unlined (frameOf closure :: calling) :=
            congrArg _ hCalling
          exact (ih (frameOf closure :: calling) (frameOf closure :: calling)).callClosure
            (fun _ => hInside) (fun _ => hInside) args
        · refine EndsAlike.withNative b.name m (Mirrors.raisingIn ?_ (QuietStep.onStore _).mirrors)
          exact congrArg _ hCalling

/-- The top level of a script is mirrored as soon as its statements are. -/
theorem runTop_mirrors {t : Telling} {whole part : Surroundings → Prop}
    {entering : Machine → Prop} {ev ev' : Level} {around : Surroundings}
    (h : LevelsMirror t whole part entering ev ev') (hPart : part around) (stmts : List Stmt) :
    Mirrors t around Any (runTop ev stmts) (runTop ev' stmts) := by
  refine (h.stmts hPart stmts).bind fun flow _ => ?_
  cases flow with
  | normal => exact .pure trivial
  | result v => exact .pure trivial
  | leave => exact .fail _
  | next => exact .fail _

/-- Every script does the same when it is given the calls in progress: the trace of its failure is
the stack of the calls that were in progress when the failure was raised. Of these, only the
outermost has no label: it is the top level of the script. -/
theorem trace_of_runProgram (fuel : Nat) (program : Program) (unit : Nat) (env : Env) (s : Store)
    (e : Emitter) :
    runProgram fuel program unit env { store := s, emitter := e } =
      runProgramDuring fuel program unit env { store := s, emitter := e } ∧
    ∀ error m', runProgram fuel program unit env { store := s, emitter := e } =
        .error (.failed error) m' →
      ∃ calls line, error.trace = calls ++ [topFrame unit line] ∧
        ∀ f ∈ calls, f.label.isSome = true := by
  let top := topFrame unit program.span.start.line
  let inside : Machine := { store := s, emitter := e, unit, env, frames := [top] }
  have hEnds : EndsAlike .atRaise inside.around Any
      (runTop (level fuel) program.stmts inside)
      (raisingIn [top] (runTop (levelDuring fuel [top] [top]) program.stmts) inside) :=
    Mirrors.raisingIn rfl (runTop_mirrors (levelsMirror_during fuel [top] [top]) rfl _)
      inside rfl
  change withFrame top (runTop (level fuel) program.stmts) { store := s, emitter := e, unit, env } =
      withFrame top (raisingIn [top] (runTop (levelDuring fuel [top] [top]) program.stmts))
        { store := s, emitter := e, unit, env } ∧
    ∀ error m', withFrame top (runTop (level fuel) program.stmts)
        { store := s, emitter := e, unit, env } = .error (.failed error) m' → _
  rw [withFrame, withFrame]
  change EndsAlike _ _ _ (runTop (level fuel) program.stmts
    { store := s, emitter := e, unit, env, frames := [top] }) _ at hEnds
  cases hRun : runTop (level fuel) program.stmts
      { store := s, emitter := e, unit, env, frames := [top] } with
  | ok done m' =>
      rw [hRun] at hEnds
      have hOther := hEnds.1
      simp only [inside] at hOther
      simp only [hOther]
      refine ⟨trivial, fun _ _ h => ?_⟩
      cases h
  | error stop m' =>
      rw [hRun] at hEnds
      obtain ⟨stop', hOther, hAround, hSame, hTold⟩ := hEnds
      simp only [inside] at hOther
      simp only [hOther, hSame]
      refine ⟨trivial, fun error m₁ hFails => ?_⟩
      injection hFails with hError _
      rw [hSame, hError] at hTold
      obtain ⟨inner, outer, hTrace, hOuter, hInner⟩ := hTold
      have hTop : unlined outer = unlined [top] :=
        hOuter.trans (congrArg Surroundings.frames hAround)
      obtain ⟨g, rfl, hHead⟩ := unlined_cons_iff.1 hTop
      refine ⟨inner, g.line, ?_, hInner⟩
      rw [hTrace, ← Frame.atLine_line hHead]
      rfl

/-- The trace of what a script has failed with. -/
def failureTrace? : EStateM.Result Stop Machine Unit → Option (List Frame)
  | .error (.failed error) _ => some error.trace
  | _ => none

/-- If there is a trace of a failure then a script has failed, and it is the trace of that
failure. -/
theorem exists_of_failureTrace? {r : EStateM.Result Stop Machine Unit} {trace : List Frame}
    (h : failureTrace? r = some trace) :
    ∃ error m, r = .error (.failed error) m ∧ error.trace = trace := by
  unfold failureTrace? at h
  split at h
  · exact ⟨_, _, rfl, Option.some.inj h⟩
  · cases h

/-- A script that calls a function in line 3 whose assertion in line 2 fails. -/
def failingCall : Program where
  span := .point ⟨1, 1⟩
  stmts := [.expr (.call (.point ⟨3, 1⟩) (.lambda (.mk (.point ⟨1, 1⟩) none [] (.mk (.point ⟨1, 1⟩)
    [.check (.point ⟨2, 1⟩) (.bool (.point ⟨2, 1⟩) false) none]))) [])]

/-- A script whose function fails: the trace has the labelled frame of the call and behind it the
frame of the script. -/
theorem trace_of_runProgram_failingCall :
    ∃ error m', runProgram 5 failingCall 7 ⟨0, []⟩ {} = .error (.failed error) m' ∧
      error.trace = [⟨.unit 7, 2, some "<lambda>"⟩, topFrame 7 3] ∧
      ∃ calls line, error.trace = calls ++ [topFrame 7 line] ∧
        ∀ f ∈ calls, f.label.isSome = true := by
  have hTrace : failureTrace? (runProgram 5 failingCall 7 ⟨0, []⟩ {}) =
      some [⟨.unit 7, 2, some "<lambda>"⟩, topFrame 7 3] := by
    decide +kernel
  obtain ⟨error, m', hFails, hTold⟩ := exists_of_failureTrace? hTrace
  exact ⟨error, m', hFails, hTold,
    (trace_of_runProgram 5 failingCall 7 ⟨0, []⟩ {} {}).2 error m' hFails⟩

end Metagen.Eval
