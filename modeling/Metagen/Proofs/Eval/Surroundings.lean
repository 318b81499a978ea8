import Metagen.Proofs.Eval.Methods

/-! Whatever is evaluated, and however it ends, the surroundings are afterwards what they were: the
frames, the running script, the open scopes, and the counters of calls and loops. Never are more
calls in progress than there may be, and only inside of loops a statement ends as loops are left
or go on.

What holds throughout an evaluation, and not only after it, is said with an evaluator that is
watched: it looks at each expression, each statement and each body before it starts, and at how the
statements of a body end, and stops with an alarm if something is wrong. Whatever the alarm is, the
watched evaluator does the same as the other. -/

namespace Metagen.Eval

open Script Emission

/-- Failures that are compared are the same. -/
def Telling.exact : Telling where
  tells _ stop stop' := stop = stop'
  raised _ _ := rfl
  outOfFuel _ := rfl
  leave _ h := by rw [h]

/-- Results that are compared with their failures and end alike are the same. -/
theorem EndsAlike.eq {α : Type} {around : Surroundings} {good : α → Prop}
    {r r' : EStateM.Result Stop Machine α} (h : EndsAlike .exact around good r r') : r' = r := by
  cases r with
  | ok a m => exact h.1
  | error stop m =>
      obtain ⟨stop', rfl, -, rfl⟩ := h
      rfl

/-- Run something if as many scopes are open as are around its code, and no more calls are in
progress than there may be. Otherwise, stop. -/
def watching {α : Type} (alarm : Stop) (depth : Nat) (action : EvalM α) : EvalM α := fun m =>
  if m.env.depth = depth ∧ m.calls ≤ maxCallDepth then action m else .error alarm m

/-- What a body goes on with after its statements, unless they end as loops are left or go on. -/
def afterStmtsWatched (alarm : Stop) (ev : Level) (last : Option Expr) : Flow → EvalM Value
  | .result v => pure v
  | .normal => lastValue ev last
  | .leave | .next => throw alarm

/-- The value of a body. It stops where statements of the body end as loops are left or go on. -/
def bodyWatched (alarm : Stop) (ev : Level) (stmts : List Stmt) : EvalM Value :=
  ev.stmts (bodyParts stmts).1 >>= afterStmtsWatched alarm ev (bodyParts stmts).2

/-- The call of a function whose body is watched. -/
def callFunctionWatched (alarm : Stop) (ev : Level) (closure : Closure) (args : Args) :
    EvalM Value := fun m =>
  if maxCallDepth ≤ m.calls then .error (.failed { fault := .callDepth }) m
  else
    enterWith (watching alarm (closure.env.depth + 1)
      (bodyWatched alarm ev closure.function.body.stmts)) closure args m

mutual

/-- Evaluate an expression that is written inside `depth` scopes. -/
def exprWatched (alarm : Stop) : Nat → Nat → Expr → EvalM Value
  | 0, _, _ => throw .outOfFuel
  | fuel + 1, depth, e =>
    let ev : Level := ⟨fuel, exprWatched alarm fuel depth, stmtWatched alarm fuel (depth + 1),
      callWatched alarm fuel⟩
    watching alarm depth (evalExpr ev (Generator.call ev) e)

/-- Run a statement that is written inside `depth` scopes. Each block in it opens one more. -/
def stmtWatched (alarm : Stop) : Nat → Nat → Stmt → EvalM Flow
  | 0, _, _ => throw .outOfFuel
  | fuel + 1, depth, s =>
    watching alarm depth (runStmt ⟨fuel, exprWatched alarm fuel depth,
      stmtWatched alarm fuel (depth + 1), callWatched alarm fuel⟩ s)

/-- Call a value. The body of a function is inside the scopes that the function was written in, and
one of its own. -/
def callWatched (alarm : Stop) : Nat → Value → Args → EvalM Value
  | 0, _, _ => throw .outOfFuel
  | fuel + 1, function, args =>
    callingWith
      (fun closure =>
        let depth := closure.env.depth + 1
        callFunctionWatched alarm ⟨fuel, exprWatched alarm fuel depth,
          stmtWatched alarm fuel depth, callWatched alarm fuel⟩ closure args)
      (fun b => withNative b.name (onStore ((Native.call b).run' args))) function

end

/-- The watched evaluator of parts: expressions inside `depth` scopes, and statements inside
`inner`. -/
def levelWatched (alarm : Stop) (fuel depth inner : Nat) : Level :=
  ⟨fuel, exprWatched alarm fuel depth, stmtWatched alarm fuel inner, callWatched alarm fuel⟩

namespace Mirrors

variable {t : Telling} {around : Surroundings} {whole part : Surroundings → Prop}
  {entering : Machine → Prop} {ev ev' : Level}

/-- Watching raises no alarm where the scopes and calls are as expected. -/
theorem watching {α : Type} {good : α → Prop} {action mirror : EvalM α} {depth : Nat}
    (h : Mirrors t around good action mirror)
    (hHere : around.env.depth = depth ∧ around.calls ≤ maxCallDepth) (alarm : Stop) :
    Mirrors t around good action (watching alarm depth mirror) := by
  rintro m rfl
  have hm : m.env.depth = depth ∧ m.calls ≤ maxCallDepth := hHere
  rw [Eval.watching, if_pos hm]
  exact h m rfl

/-- Outside of loops, no statement of a body ends as loops are left or go on. -/
theorem bodyWatched (h : LevelsMirror t whole part entering ev ev') (hWhole : whole around)
    (hPart : part around) (hLoops : around.loops = 0) (alarm : Stop) (stmts : List Stmt) :
    Mirrors t around Any (Eval.runBody ev stmts) (Eval.bodyWatched alarm ev' stmts) := by
  rw [runBody_eq, Eval.bodyWatched]
  refine (h.stmts hPart _).bind fun flow hFlow => ?_
  rw [hLoops] at hFlow
  cases flow with
  | result v => exact .pure trivial
  | normal => exact lastValue h hWhole _
  | leave => exact (Bool.false_ne_true hFlow).elim
  | next => exact (Bool.false_ne_true hFlow).elim

end Mirrors

/-- An expression is mirrored, methods of the generator included, if its parts are and a call may be
entered wherever as many calls are in progress as around it. What a method calls has the frame of
the method around it. -/
theorem evalExpr_mirrors {t : Telling} {around : Surroundings}
    {whole part : Surroundings → Prop} {entering : Machine → Prop} {ev ev' : Level}
    (h : LevelsMirror t whole part entering ev ev') (hWhole : whole around)
    (hEntering : ∀ m : Machine, m.calls = around.calls → entering m) (e : Expr) :
    Mirrors t around Any (evalExpr ev (Generator.call ev) e)
      (evalExpr ev' (Generator.call ev') e) := by
  have hMarked : ∀ m : Machine, m.around = around → (m.marked e.span).around = around :=
    fun m hAround => (around_marked m e.span).trans hAround
  refine Mirrors.evalExpr h hWhole e (fun m hAround => ?_) fun m hAround method args => ?_
  · exact hEntering _ (congrArg Surroundings.calls (hMarked m hAround))
  · have hInside : ∀ m' : Machine, m'.around = (m.marked e.span).inside
        { site := .native, line := 0, label := some ("Meta." ++ method) } → entering m' := by
      intro m' h'
      have hCalls : m'.calls = (m.marked e.span).calls := congrArg Surroundings.calls h'
      exact hEntering m' (hCalls.trans (congrArg Surroundings.calls (hMarked m hAround)))
    have hEnds := EndsAlike.withNative ("Meta." ++ method) (m.marked e.span)
      (h.perform hInside method args)
    rwa [hMarked m hAround] at hEnds

theorem builtin_mirrors {t : Telling} (b : Builtin) (args : Args) (m : Machine) :
    EndsAlike t m.around Any (withNative b.name (onStore ((Native.call b).run' args)) m)
      (withNative b.name (onStore ((Native.call b).run' args)) m) :=
  .withNative b.name m (QuietStep.onStore _).mirrors

/-- Surroundings with this many scopes open, and with no more calls than there may be. -/
def AtDepth (depth : Nat) (around : Surroundings) : Prop :=
  around.env.depth = depth ∧ around.calls ≤ maxCallDepth

/-- With no more calls than there may be, the watched evaluator does the same as the other. -/
theorem levelsMirror_watched (alarm : Stop) (fuel depth inner : Nat) :
    LevelsMirror .exact (AtDepth depth) (AtDepth inner) (·.calls ≤ maxCallDepth) (level fuel)
      (levelWatched alarm fuel depth inner) := by
  induction fuel generalizing depth inner with
  | zero =>
      constructor
      · rfl
      · exact fun _ _ => .outOfFuel
      · exact fun _ _ => .outOfFuel
      · exact fun _ _ _ => ⟨_, rfl, rfl, rfl⟩
  | succ fuel ih =>
      constructor
      · rfl
      · intro around hHere e
        refine Mirrors.watching ?_ hHere alarm
        exact evalExpr_mirrors (ih depth (depth + 1)) hHere
          (fun m hCalls => Nat.le_trans (Nat.le_of_eq hCalls) hHere.2) e
      · intro around hHere s
        have hPushed : ∀ t, AtDepth (inner + 1) (around.pushed t) := fun t =>
          ⟨congrArg (· + 1) hHere.1, hHere.2⟩
        refine Mirrors.watching ?_ hHere alarm
        exact Mirrors.runStmt (ih inner (inner + 1)) hHere hHere hPushed hPushed s
      · intro m hCalls function args
        change EndsAlike _ _ _ (callValue (level fuel) function args m) _
        rw [callValue_eq]
        refine EndsAlike.callingWith function (fun closure => ?_)
          (fun b => builtin_mirrors b args m)
        rw [callClosure_eq, callFunctionWatched]
        split
        · exact ⟨_, rfl, rfl, rfl⟩
        · next hFew =>
          have hInside : AtDepth (closure.env.depth + 1) (m.calling closure) :=
            ⟨rfl, Nat.lt_of_not_le hFew⟩
          refine EndsAlike.enterWith (Mirrors.watching ?_ hInside alarm) args
          exact Mirrors.bodyWatched (ih _ _) hInside hInside rfl alarm _

/-- Whatever is around it, the evaluator leaves its surroundings as they were. -/
theorem levelsMirror_self (fuel : Nat) :
    LevelsMirror .exact (fun _ => True) (fun _ => True) (fun _ => True) (level fuel)
      (level fuel) := by
  induction fuel with
  | zero =>
      constructor
      · rfl
      · exact fun _ _ => .outOfFuel
      · exact fun _ _ => .outOfFuel
      · exact fun _ _ _ => ⟨_, rfl, rfl, rfl⟩
  | succ fuel ih =>
      constructor
      · rfl
      · intro around _ e
        exact evalExpr_mirrors ih trivial (fun _ _ => trivial) e
      · intro around _ s
        exact Mirrors.runStmt ih trivial trivial (fun _ => trivial) (fun _ => trivial) s
      · intro m _ function args
        change EndsAlike _ _ _ (callValue (level fuel) function args m)
          (callValue (level fuel) function args m)
        rw [callValue_eq]
        refine EndsAlike.callingWith function (fun closure => ?_)
          (fun b => builtin_mirrors b args m)
        exact ih.callClosure (fun _ => trivial) (fun _ => trivial) args

/-- What was entered between two machines has been left again. -/
structure RestoredSurroundings (m m' : Machine) : Prop where
  frames : m'.frames.length = m.frames.length
  unit : m'.unit = m.unit
  env : m'.env = m.env
  calls : m'.calls = m.calls
  loops : m'.loops = m.loops

/-- An evaluation that ends with the surroundings as they were. A loop is left or goes on only if
there is one. -/
structure Returns (m : Machine) (r : EStateM.Result Stop Machine Flow) : Prop where
  restored : RestoredSurroundings m (endState r)
  inLoop : ∀ m', r = .ok .leave m' ∨ r = .ok .next m' → 0 < m.loops

theorem RestoredSurroundings.of_around {m m' : Machine} (h : m'.around = m.around) :
    RestoredSurroundings m m' :=
  ⟨length_eq_of_unlined (congrArg Surroundings.frames h), congrArg Surroundings.unit h,
    congrArg Surroundings.env h, congrArg Surroundings.calls h, congrArg Surroundings.loops h⟩

theorem RestoredSurroundings.of_endsAlike {α : Type} {good : α → Prop} {t : Telling} {m : Machine}
    {r r' : EStateM.Result Stop Machine α} (h : EndsAlike t m.around good r r') :
    RestoredSurroundings m (endState r) :=
  .of_around h.endState_around

/-- A statement that ends alike on both sides returns to its surroundings, and ends as a loop does
only inside of one. -/
theorem Returns.of_endsAlike {t : Telling} {m : Machine} {r r' : EStateM.Result Stop Machine Flow}
    (h : EndsAlike t m.around (Flow.FitsLoop (decide (0 < m.loops))) r r') : Returns m r := by
  refine ⟨.of_endsAlike h, fun m' hFlow => ?_⟩
  rcases hFlow with rfl | rfl
  · exact of_decide_eq_true h.2.2
  · exact of_decide_eq_true h.2.2

/-- A failure that was traced inside of frames has a trace. -/
theorem trace_ne_nil_of_traced {frames : List Frame} (hFrames : frames ≠ []) {stop : Stop}
    {error : EvalError} (h : stop.traced frames = .failed error) : error.trace ≠ [] := by
  cases stop with
  | outOfFuel => nomatch h
  | failed told =>
      injection h with hError
      subst hError
      split
      · exact hFrames
      · next hTrace => exact fun hNil => hTrace (List.isEmpty_iff.2 hNil)

/-- A failure that leaves the body of a call has been traced. -/
theorem trace_ne_nil_of_withCall {m m' : Machine} {closure : Closure} {body : EvalM Value}
    {error : EvalError} (hBody : ∀ around, Mirrors .exact around Any body body)
    (h : withCall closure.unit (withFrame (frameOf closure) body) m = .error (.failed error) m') :
    error.trace ≠ [] := by
  let inside : Machine :=
    { m with unit := closure.unit, calls := m.calls + 1, loops := 0
             frames := frameOf closure :: m.frames }
  have hEnds := hBody _ inside rfl
  rw [withCall, leaving, withFrame] at h
  dsimp only at h
  cases hRun : body inside with
  | ok a m₁ =>
      rw [show body _ = _ from hRun] at h
      cases h
  | error stop m₁ =>
      rw [show body _ = _ from hRun] at h
      rw [hRun] at hEnds
      obtain ⟨_, _, hAround, _⟩ := hEnds
      injection h with hStop _
      have hSame : unlined m₁.frames = unlined (frameOf closure :: m.frames) :=
        congrArg Surroundings.frames hAround
      have hLength := length_eq_of_unlined hSame
      exact trace_ne_nil_of_traced (List.ne_nil_of_length_eq_add_one hLength) hStop

/-- Arguments that are left over are refused with a failure of their own. -/
theorem leftOver_ne_callDepth (args : Args) : args.leftOver? ≠ some .callDepth := by
  unfold Args.leftOver?
  split
  · exact fun h => nomatch h
  · exact fun h => nomatch h
  · exact fun h => nomatch h

/-- Binding parameters never fails for too many calls. -/
theorem bindParams_ne_callDepth {label : String} {params : List Ident} {args : Args}
    {m m' : Machine} :
    bindParams label params args m ≠ .error (.failed { fault := .callDepth }) m' := by
  induction params generalizing args m with
  | nil =>
      rw [bindParams]
      cases hLeft : args.leftOver? with
      | none =>
          intro h
          cases h
      | some fault =>
          intro h
          injection h with hStop _
          injection hStop with hError
          injection hError with hFault _
          exact leftOver_ne_callDepth args (hFault ▸ hLeft)
  | cons param rest ih =>
      rw [bindParams]
      cases hTaken : args.take param.name with
      | none =>
          intro h
          cases h
      | some taken => exact ih

/-- What stops on the way out has stopped inside. -/
theorem error_of_leaving {α : Type} {leave : Machine → Machine} {body : EvalM α} {m m' : Machine}
    {stop : Stop} (h : leaving leave body m = .error stop m') :
    ∃ last, body m = .error stop last := by
  rw [leaving] at h
  cases hRun : body m with
  | ok a last =>
      rw [hRun] at h
      cases h
  | error stop' last =>
      rw [hRun] at h
      cases h
      exact ⟨last, rfl⟩

/-- A call that is entered is not itself too deep, though calls in it may be. -/
theorem enterWith_ne_callDepth {m m' : Machine} {closure : Closure} {body : EvalM Value}
    (hBody : ∀ around, Mirrors .exact around Any body body) (args : Args) :
    enterWith body closure args m ≠ .error (.failed { fault := .callDepth }) m' := by
  intro h
  rw [enterWith_eq] at h
  cases hBound : bindParams closure.function.label closure.function.params args
      (m.pushed closure.env) with
  | error stop m₁ =>
      rw [hBound] at h
      injection h with hStop _
      exact bindParams_ne_callDepth (hStop ▸ hBound)
  | ok done m₁ =>
      rw [hBound] at h
      obtain ⟨last, hInside⟩ := error_of_leaving h
      exact trace_ne_nil_of_withCall hBody hInside rfl

/-- A call is too deep exactly if it starts with as many calls in progress as there may be. -/
theorem callDepth_iff {m : Machine} (hCalls : m.calls ≤ maxCallDepth) (fuel : Nat)
    (closure : Closure) (args : Args) :
    (∃ m', callClosure (level fuel) closure args m = .error (.failed { fault := .callDepth }) m') ↔
      m.calls = maxCallDepth := by
  rw [callClosure_eq]
  constructor
  · rintro ⟨m', hRaised⟩
    split at hRaised
    · next hMany => exact Nat.le_antisymm hCalls hMany
    · refine (enterWith_ne_callDepth (fun _ => ?_) args hRaised).elim
      exact .runBody (levelsMirror_self fuel) trivial trivial _
  · intro hMany
    exact ⟨m, if_pos (Nat.le_of_eq hMany.symm)⟩

/-- Outside of loops, statements of a script never end as loops are left or go on, so that a script
fails only as its statements do. -/
theorem runTop_eq_discard {m : Machine} (hLoops : m.loops = 0) (fuel : Nat) (stmts : List Stmt) :
    runTop (level fuel) stmts m = (discard ((level fuel).stmts stmts) : EvalM Unit) m := by
  have hMirrors : Mirrors .exact m.around _ ((level fuel).stmts stmts) _ :=
    (levelsMirror_self fuel).stmts trivial stmts
  have hEnds := hMirrors m rfl
  change EStateM.bind _ _ m = EStateM.map _ _ m
  rw [EStateM.bind, EStateM.map]
  cases hRun : (level fuel).stmts stmts m with
  | error stop m' => rfl
  | ok flow m' =>
      rw [hRun] at hEnds
      have hFits : flow.FitsLoop (decide (0 < m.loops)) := hEnds.2.2
      rw [hLoops] at hFits
      cases flow with
      | normal => rfl
      | result v => rfl
      | leave => exact (Bool.false_ne_true hFits).elim
      | next => exact (Bool.false_ne_true hFits).elim

/-- Whatever is evaluated, from every machine: what is entered is left again, the scopes too, and
only within a loop a statement or a block ends as loops are left or go on. If there are no more
calls than there may be, there never are, each expression and each statement finds as many scopes
open as it is written in, and no statements of a body end as loops are left or go on
(`exprWatched`); a call is refused exactly if there are as many as there may be. Outside of loops,
no statements of a script end as loops do either. -/
theorem surroundings_restored (fuel : Nat) (m : Machine) (alarm : Stop) :
    ((∀ e, RestoredSurroundings m (endState (exprWithin fuel e m))) ∧
      (∀ s, Returns m (stmtWithin fuel s m)) ∧
      (∀ b, Returns m ((level fuel).block b m)) ∧
      ∀ function args, RestoredSurroundings m (endState (callWithin fuel function args m))) ∧
    (m.calls ≤ maxCallDepth →
      ((∀ e, exprWatched alarm fuel m.env.depth e m = exprWithin fuel e m) ∧
        (∀ s, stmtWatched alarm fuel m.env.depth s m = stmtWithin fuel s m) ∧
        (∀ b, (levelWatched alarm fuel m.env.depth (m.env.depth + 1)).block b m =
          (level fuel).block b m) ∧
        ∀ function args, callWatched alarm fuel function args m = callWithin fuel function args m) ∧
      ∀ closure args,
        (∃ m', callClosure (level fuel) closure args m =
          .error (.failed { fault := .callDepth }) m') ↔ m.calls = maxCallDepth) ∧
    (m.loops = 0 → ∀ stmts,
      runTop (level fuel) stmts m = (discard ((level fuel).stmts stmts) : EvalM Unit) m) := by
  have hSelf := levelsMirror_self fuel
  refine ⟨⟨fun e => ?_, fun s => ?_, fun b => ?_, fun function args => ?_⟩,
    fun hCalls => ⟨⟨fun e => ?_, fun s => ?_, fun b => ?_, fun function args => ?_⟩,
      callDepth_iff hCalls fuel⟩,
    fun hLoops => runTop_eq_discard hLoops fuel⟩
  · exact .of_endsAlike (hSelf.expr trivial e m rfl)
  · exact .of_endsAlike (hSelf.stmt trivial s m rfl)
  · have hMirrors : Mirrors .exact m.around _ ((level fuel).block b) _ :=
      hSelf.block (fun _ => trivial) b
    exact .of_endsAlike (hMirrors m rfl)
  · exact .of_endsAlike (hSelf.call trivial function args)
  · have hWatched := levelsMirror_watched alarm fuel m.env.depth m.env.depth
    exact (hWatched.expr ⟨rfl, hCalls⟩ e m rfl).eq
  · have hWatched := levelsMirror_watched alarm fuel m.env.depth m.env.depth
    exact (hWatched.stmt ⟨rfl, hCalls⟩ s m rfl).eq
  · have hWatched := levelsMirror_watched alarm fuel m.env.depth (m.env.depth + 1)
    have hOpen : ∀ s, AtDepth (m.env.depth + 1) (m.around.pushed s) := fun _ => ⟨rfl, hCalls⟩
    exact (hWatched.block hOpen b m rfl).eq
  · have hWatched := levelsMirror_watched alarm fuel m.env.depth m.env.depth
    exact (hWatched.call hCalls function args).eq

/-- A script that leaves a loop where there is none. -/
theorem surroundings_restored_strayLeave :
    (({} : Machine).calls ≤ maxCallDepth ∧ ({} : Machine).loops = 0) ∧
      stmtWatched .outOfFuel 2 1 (.leave (.point ⟨1, 1⟩)) {} =
        stmtWithin 2 (.leave (.point ⟨1, 1⟩)) {} ∧
      runTop (level 2) [.leave (.point ⟨1, 1⟩)] {} =
        .error (.failed { fault := .outsideLoop .leave }) {} :=
  ⟨⟨by decide, rfl⟩,
    (((surroundings_restored 2 {} .outOfFuel).2.1 (by decide)).1.2.1 _),
    (((surroundings_restored 2 {} .outOfFuel).2.2 rfl) [.leave (.point ⟨1, 1⟩)]).trans rfl⟩

end Metagen.Eval
