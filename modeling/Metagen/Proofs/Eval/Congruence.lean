import Metagen.Proofs.Eval.Mirror

/-! Rules built on evaluators of parts that mirror each other mirror each other as well, one lemma
for each construct of the language. -/

namespace Metagen.Eval

open Script Emission

/-- Two evaluators of parts mirror each other: for expressions and for statements in certain
surroundings, and for calls from certain machines. -/
structure LevelsMirror (t : Telling) (whole part : Surroundings → Prop) (entering : Machine → Prop)
    (ev ev' : Level) : Prop where
  fuel : ev.fuel = ev'.fuel
  expr : ∀ {around : Surroundings}, whole around → ∀ e,
    Mirrors t around Any (ev.expr e) (ev'.expr e)
  /-- Only within a loop a statement ends as loops are left or go on. -/
  stmt : ∀ {around : Surroundings}, part around → ∀ s,
    Mirrors t around (Flow.FitsLoop (decide (0 < around.loops))) (ev.stmt s) (ev'.stmt s)
  call : ∀ {m : Machine}, entering m → ∀ function args,
    EndsAlike t m.around Any (ev.call function args m) (ev'.call function args m)

variable {t : Telling} {whole part : Surroundings → Prop} {entering : Machine → Prop}
  {ev ev' : Level} {around : Surroundings}

namespace LevelsMirror

/-- Statements mirror each other one by one, and how one of them ends decides for both whether the
next one runs. -/
theorem stmts (h : LevelsMirror t whole part entering ev ev') (hPart : part around)
    (stmts : List Stmt) :
    Mirrors t around (Flow.FitsLoop (decide (0 < around.loops))) (ev.stmts stmts)
      (ev'.stmts stmts) := by
  induction stmts with
  | nil => exact .pure trivial
  | cons s rest ih =>
      refine (h.stmt hPart s).bind fun flow hFlow => ?_
      split
      · exact ih
      · exact .pure hFlow

/-- The statements of a block run in a scope of their own. -/
theorem block (h : LevelsMirror t whole part entering ev ev')
    (hOpen : ∀ s, part (around.pushed s)) (b : Block) :
    Mirrors t around (Flow.FitsLoop (decide (0 < around.loops))) (ev.block b) (ev'.block b) :=
  .inNewScope fun s => h.stmts (hOpen s) b.stmts

end LevelsMirror

/-- Functions that are called from outside of scripts. -/
theorem LevelsMirror.callWith (h : LevelsMirror t whole part entering ev ev')
    (hEntering : ∀ m : Machine, m.around = around → entering m) (function : Value)
    (positional : List Value) :
    Mirrors t around Any (ev.callWith function positional) (ev'.callWith function positional) :=
  fun m hAround => hAround ▸ h.call (hEntering m hAround) function _

namespace Mirrors

/-- Arguments are evaluated one after the other on both sides, and each of them mirrors itself. -/
theorem evalArgs (h : LevelsMirror t whole part entering ev ev') (hWhole : whole around)
    (callee : String) (args : List (Option Ident × Expr)) :
    Mirrors t around Any (evalArgs ev callee args) (evalArgs ev' callee args) := by
  refine foldlM _ fun arg _ taken => (h.expr hWhole arg.2).bindAny fun v => ?_
  split
  · exact .pure trivial
  · exact .pure trivial

theorem evalPart (h : LevelsMirror t whole part entering ev ev') (hWhole : whole around)
    (p : Script.Part Expr) :
    Mirrors t around Any (evalPart ev p) (evalPart ev' p) := by
  cases p with
  | text text => exact .pure trivial
  | hole e => exact (h.expr hWhole e).bindAny fun v => (QuietStep.renderValue v).mirrors

theorem quietStep_makeFunction (f : Function) : QuietStep (makeFunction f) :=
  fun m => QuietStep.makeCell (·.newFunction ⟨f, m.env, m.unit⟩) m

theorem quietStep_lookUp (name : String) :
    QuietStep (do onStore (lookUp (← get).env name)) :=
  fun m => QuietStep.onStore (lookUp m.env name) m

/-- An operator mirrors itself: its second operand is evaluated by both or by neither. -/
theorem evalBinary (h : LevelsMirror t whole part entering ev ev') (hWhole : whole around)
    (span : Span) (op : BinaryOp) (left right : Expr) :
    Mirrors t around Any (evalBinary ev span op left right)
      (evalBinary ev' span op left right) := by
  unfold Eval.evalBinary
  refine (h.expr hWhole left).bindAny fun a => ?_
  split
  · exact after (.isTrue _) fun answer => .ite (h.expr hWhole right) (.pure trivial)
  · exact after (.isTrue _) fun answer => .ite (.pure trivial) (h.expr hWhole right)
  · exact (h.expr hWhole right).bindAny fun b => mark (QuietStep.onStore _).mirrors

end Mirrors

variable {generate generate' : String → Args → EvalM Value}

/-- A method is called from a machine from which calls are made. -/
theorem LevelsMirror.callMethod (h : LevelsMirror t whole part entering ev ev') {m : Machine}
    (hEntering : entering m)
    (hGenerate : ∀ method args,
      EndsAlike t m.around Any (generate method args m) (generate' method args m))
    (receiver : Value) (method : String) (args : Args) :
    EndsAlike t m.around Any (callMethod ev generate receiver method args m)
      (callMethod ev' generate' receiver method args m) := by
  have hBuiltin := (QuietStep.onStore ((Native.callMethod receiver method).run' args)).endsAlike t m
  unfold Eval.callMethod
  cases receiver with
  | generator => exact hGenerate method args
  | record cell =>
      change EndsAlike t m.around Any (EStateM.bind (Eval.readStore _) _ m)
        (EStateM.bind (Eval.readStore _) _ m)
      rw [EStateM.bind, EStateM.bind, Eval.readStore]
      cases (m.store.recordAt cell).get? method with
      | none => exact hBuiltin
      | some member => exact h.call hEntering member args
  | _ => exact hBuiltin

namespace Mirrors

/-- Calls are made from the line where the call starts. -/
theorem evalCall (h : LevelsMirror t whole part entering ev ev') (hWhole : whole around)
    {span : Span}
    (hEntering : ∀ m : Machine, m.around = around → entering (m.marked span))
    (hGenerate : ∀ m : Machine, m.around = around → ∀ method args, EndsAlike t around Any
      (generate method args (m.marked span)) (generate' method args (m.marked span)))
    (callee : Expr) (args : List (Option Ident × Expr)) :
    Mirrors t around Any (evalCall ev generate span callee args)
      (evalCall ev' generate' span callee args) := by
  have hFunction : ∀ (naming : EvalM String), QuietStep naming → ∀ function, Mirrors t around Any
      (do let name ← naming
          let args ← Eval.evalArgs ev name args
          Eval.mark span
          ev.call function args)
      (do let name ← naming
          let args ← Eval.evalArgs ev' name args
          Eval.mark span
          ev'.call function args) := by
    intro naming hNaming function
    refine after hNaming fun name => (evalArgs h hWhole name args).bindAny fun args => ?_
    refine markThen fun m hAround => ?_
    have hEnds := h.call (hEntering m hAround) function args
    rwa [around_marked, hAround] at hEnds
  unfold Eval.evalCall
  cases callee with
  | field _ object field =>
      refine (h.expr hWhole object).bindAny fun receiver => ?_
      refine (evalArgs h hWhole _ args).bindAny fun args => markThen fun m hAround => ?_
      have hSame : (m.marked span).around = around := (around_marked m span).trans hAround
      have hEnds := h.callMethod (hEntering m hAround)
        (by rw [hSame]; exact hGenerate m hAround) receiver field.name args
      rwa [hSame] at hEnds
  | name _ name =>
      exact (h.expr hWhole _).bindAny fun function => hFunction _ (.pure name) function
  | _ => exact (h.expr hWhole _).bindAny fun function =>
      hFunction _ (.renderValue function) function

/-- Every expression is mirrored as soon as its parts are, and calls from where it is marked; the
cases are the constructors. -/
theorem evalExpr (h : LevelsMirror t whole part entering ev ev') (hWhole : whole around)
    (e : Expr)
    (hEntering : ∀ m : Machine, m.around = around → entering (m.marked e.span))
    (hGenerate : ∀ m : Machine, m.around = around → ∀ method args, EndsAlike t around Any
      (generate method args (m.marked e.span)) (generate' method args (m.marked e.span))) :
    Mirrors t around Any (evalExpr ev generate e) (evalExpr ev' generate' e) := by
  unfold Eval.evalExpr
  refine mark ?_
  cases e with
  | int _ n => exact .pure trivial
  | float _ x => exact .pure trivial
  | text _ text => exact .pure trivial
  | interpolation _ parts =>
      exact (mapM fun p _ => evalPart h hWhole p).bindAny fun _ => .pure trivial
  | bool _ b => exact .pure trivial
  | nil _ => exact .pure trivial
  | list _ items =>
      exact (mapM fun item _ => h.expr hWhole item).bindAny fun _ =>
        (QuietStep.makeCell _).mirrors
  | record _ fields =>
      refine (mapM fun field _ => ?_).bindAny fun _ => (QuietStep.makeCell _).mirrors
      exact (h.expr hWhole field.2).bindAny fun _ => .pure trivial
  | name _ name => exact (quietStep_lookUp name).mirrors
  | call span callee args => exact evalCall h hWhole hEntering hGenerate callee args
  | field span object field =>
      exact (h.expr hWhole object).bindAny fun v => mark (QuietStep.onStore _).mirrors
  | index span object index =>
      refine (h.expr hWhole object).bindAny fun v => ?_
      exact (h.expr hWhole index).bindAny fun i => mark (QuietStep.onStore _).mirrors
  | binary span op left right => exact evalBinary h hWhole span op left right
  | unary _ op operand =>
      refine (h.expr hWhole operand).bindAny fun v => ?_
      cases op with
      | not => exact after (.isTrue v) fun _ => .pure trivial
      | neg => exact (QuietStep.onStore _).mirrors
  | lambda f => exact (quietStep_makeFunction f).mirrors
  | paren _ inner => exact h.expr hWhole inner

/-- An assignment to a name is one quiet step: it changes the store, or fails and changes
nothing. -/
theorem quietStep_assignName (ev : Level) (v : Value) (span : Span) (name : String) :
    QuietStep (Eval.assign ev v (.name span name)) := by
  intro m
  rw [assign_name]
  cases m.env.set? m.store name v with
  | none => exact ⟨m.store, m.emitter, .inr ⟨_, rfl⟩⟩
  | some s => exact ⟨s, m.emitter, .inl ⟨(), rfl⟩⟩

/-- Assignments are mirrored; the cases are those of what can be assigned to. -/
theorem assign (h : LevelsMirror t whole part entering ev ev') (hWhole : whole around)
    (v : Value) (target : Expr) :
    Mirrors t around Any (assign ev v target) (assign ev' v target) := by
  induction target using Eval.assign.induct with
  | case1 span name =>
      have hSame : Eval.assign ev' v (.name span name) =
          Eval.assign ev v (.name span name) := by
        unfold Eval.assign
        rfl
      rw [hSame]
      exact (quietStep_assignName ev v span name).mirrors
  | case2 span object field =>
      unfold Eval.assign
      exact (h.expr hWhole object).bindAny fun o => (QuietStep.onStore _).mirrors
  | case3 span object index =>
      unfold Eval.assign
      refine (h.expr hWhole object).bindAny fun o => ?_
      exact (h.expr hWhole index).bindAny fun i => (QuietStep.onStore _).mirrors
  | case4 span inner ih =>
      unfold Eval.assign
      exact ih
  | case5 other hName hField hIndex hParen =>
      rw [assign_of_ne hName hField hIndex hParen, assign_of_ne hName hField hIndex hParen]
      exact fail _

/-- By induction over a branch: conditions are mirrored, and the block that is taken is, in its new
scope. -/
theorem runBranch (h : LevelsMirror t whole part entering ev ev') (hWhole : whole around)
    (hOpen : ∀ s, part (around.pushed s)) (b : Branch) :
    Mirrors t around (Flow.FitsLoop (decide (0 < around.loops))) (runBranch ev b)
      (runBranch ev' b) := by
  induction b using Eval.runBranch.induct with
  | case1 span condition block otherwise ih =>
      unfold Eval.runBranch
      refine (h.expr hWhole condition).bindAny fun c => ?_
      refine after (.isTrue _) fun answer => .ite (h.block hOpen block) ?_
      cases otherwise with
      | nothing => exact .pure trivial
      | block other => exact h.block hOpen other
      | branch next => exact mark ih

/-- Finding out what a loop runs through only reads the store. -/
theorem quietStep_iterated (v : Value) : QuietStep (iterated v) := by
  unfold Eval.iterated
  split
  · exact .readStore _
  · exact .pure _
  · exact .readStore _
  · exact .fail _

/-- A loop goes on or ends as its body says, and ends normally or with a result. -/
theorem loopBody {action mirror : EvalM Flow} {next next' : Flow → EvalM Flow} {inLoop : Bool}
    {good : Flow → Prop} (h : Mirrors t around good action mirror)
    (hNormal : Mirrors t around (Flow.FitsLoop inLoop) (next .normal) (next' .normal))
    (hNext : next .next = next .normal ∧ next' .next = next' .normal)
    (hLeave : next .leave = Pure.pure .normal ∧ next' .leave = Pure.pure .normal)
    (hResult : ∀ v, next (.result v) = Pure.pure (.result v) ∧
      next' (.result v) = Pure.pure (.result v)) :
    Mirrors t around (Flow.FitsLoop inLoop) (action >>= next) (mirror >>= next') := by
  refine h.bind fun flow _ => ?_
  cases flow with
  | normal => exact hNormal
  | next =>
      rw [hNext.1, hNext.2]
      exact hNormal
  | leave =>
      rw [hLeave.1, hLeave.2]
      exact .pure trivial
  | result v =>
      rw [(hResult v).1, (hResult v).2]
      exact .pure trivial

/-- A round of a loop runs in one new scope on both sides, in which the item and perhaps its number
are bound. -/
theorem runItem (h : LevelsMirror t whole part entering ev ev')
    (hOpen : ∀ s, part (around.pushed s)) (item : Ident) (index : Option Ident) (block : Block)
    (i : Nat) (v : Value) :
    Mirrors t around (Flow.FitsLoop (decide (0 < around.loops))) (runItem ev item index block i v)
      (runItem ev' item index block i v) := by
  refine .inNewScope fun s => after (.define _ _) fun _ => ?_
  have hStmts := h.stmts (hOpen s) block.stmts
  cases index with
  | none => exact hStmts
  | some index => exact after (.define _ _) fun _ => hStmts

/-- By induction over the items: a loop ends as its rounds say, and never as a loop is left or goes
on. -/
theorem runItems (h : LevelsMirror t whole part entering ev ev')
    (hOpen : ∀ s, part (around.pushed s)) (item : Ident) (index : Option Ident) (block : Block)
    (i : Nat) (items : List Value) (inLoop : Bool) :
    Mirrors t around (Flow.FitsLoop inLoop) (runItems ev item index block i items)
      (runItems ev' item index block i items) := by
  induction items generalizing i with
  | nil => exact .pure trivial
  | cons v rest ih =>
      rw [Eval.runItems, Eval.runItems]
      exact loopBody (runItem h hOpen item index block i v) (ih (i + 1)) ⟨rfl, rfl⟩ ⟨rfl, rfl⟩
        fun _ => ⟨rfl, rfl⟩

/-- By induction on the bound of rounds: a loop ends as its rounds say, and never as a loop is left
or goes on. -/
theorem runRounds (h : LevelsMirror t whole part entering ev ev') (hWhole : whole around)
    (hOpen : ∀ s, part (around.pushed s)) (span : Span) (condition : Expr)
    (block : Block) (fuel : Nat) (inLoop : Bool) :
    Mirrors t around (Flow.FitsLoop inLoop) (runRounds ev span condition block fuel)
      (runRounds ev' span condition block fuel) := by
  induction fuel with
  | zero => exact outOfFuel
  | succ fuel ih =>
      rw [Eval.runRounds, Eval.runRounds]
      refine mark ((h.expr hWhole condition).bindAny fun c => ?_)
      refine after (.isTrue _) fun answer => .ite ?_ (.pure trivial)
      exact loopBody (h.block hOpen block) ih ⟨rfl, rfl⟩ ⟨rfl, rfl⟩ fun _ => ⟨rfl, rfl⟩

/-- A loop control statement succeeds only within a loop. -/
theorem runLoopControl (word : LoopWord) {flow : Flow} (hFlow : flow.FitsLoop true) :
    Mirrors t around (Flow.FitsLoop (decide (0 < around.loops))) (runLoopControl word flow)
      (runLoopControl word flow) := by
  intro m hAround
  have hLoops : m.loops = around.loops := congrArg Surroundings.loops hAround
  have hRun : Eval.runLoopControl word flow m =
      (if m.loops == 0 then Eval.fail (.outsideLoop word) else Pure.pure flow : EvalM Flow) m := rfl
  rw [hRun]
  split
  · exact fail _ m hAround
  · next hInside =>
    refine pure ?_ m hAround
    rw [← hLoops]
    have hPositive : 0 < m.loops := Nat.pos_of_ne_zero fun hZero => hInside (beq_iff_eq.2 hZero)
    rw [decide_eq_true hPositive]
    exact hFlow

/-- An assertion ends normally on both sides or fails on both with one message. -/
theorem runCheck (h : LevelsMirror t whole part entering ev ev') (hWhole : whole around)
    (span : Span) (condition : Expr) (message : Option Expr) {good : Flow → Prop}
    (hNormal : good .normal) :
    Mirrors t around good (runCheck ev span condition message)
      (runCheck ev' span condition message) := by
  refine (h.expr hWhole condition).bindAny fun c => ?_
  refine after (.isTrue _) fun answer => .ite (.pure hNormal) ?_
  refine bindAny ?_ fun text => mark (fail _)
  cases message with
  | none => exact .pure trivial
  | some e => exact (h.expr hWhole e).bindAny fun v => (QuietStep.renderValue v).mirrors

/-- Every statement is mirrored as soon as its parts are, in loops and new scopes too; the cases are
the constructors. -/
theorem runStmt (h : LevelsMirror t whole part entering ev ev') (hWhole : whole around)
    (hLoop : whole around.looped) (hOpen : ∀ s, part (around.pushed s))
    (hLoopOpen : ∀ s, part (around.looped.pushed s)) (s : Stmt) :
    Mirrors t around (Flow.FitsLoop (decide (0 < around.loops))) (runStmt ev s)
      (runStmt ev' s) := by
  unfold Eval.runStmt
  refine mark ?_
  cases s with
  | bind _ name value =>
      exact (h.expr hWhole value).bindAny fun v => after (.define _ _) fun _ =>
        .pure trivial
  | assign span target value =>
      refine (h.expr hWhole value).bindAny fun v => mark ?_
      exact (assign h hWhole v target).bindAny fun _ => .pure trivial
  | function f =>
      dsimp only
      split
      · exact after (quietStep_makeFunction f) fun v => after (.define _ _) fun _ =>
          .pure trivial
      · exact .pure trivial
  | branch b => exact runBranch h hWhole hOpen b
  | forEach _ item index iterable block =>
      refine (h.expr hWhole iterable).bindAny
        fun v => after (quietStep_iterated v) fun items => ?_
      exact withLoop (runItems h hLoopOpen item index block 0 items _)
  | whileTrue span condition block =>
      dsimp only
      rw [h.fuel]
      exact withLoop (runRounds h hLoop hLoopOpen span condition block _ _)
  | leave _ => exact runLoopControl _ rfl
  | next _ => exact runLoopControl _ rfl
  | result _ value =>
      cases value with
      | none => exact .pure trivial
      | some e => exact (h.expr hWhole e).bindAny fun v => .pure trivial
  | check span condition message => exact runCheck h hWhole span condition message trivial
  | globals _ names => exact after (.changeStore _) fun _ => .pure trivial
  | expr e => exact (h.expr hWhole e).map.bindAny fun _ => .pure trivial

end Mirrors

/-- The statements of a body, without an expression that stands last, and that expression. -/
def bodyParts (stmts : List Stmt) : List Stmt × Option Expr :=
  match stmts.getLast? with
  | some (.expr e) => (stmts.dropLast, some e)
  | _ => (stmts, none)

/-- The value of the expression that stands last in a body. -/
def lastValue (ev : Level) : Option Expr → EvalM Value
  | some e => do
    mark e.span
    ev.expr e
  | none => pure .nil

/-- What a body goes on with after its statements. -/
def afterStmts (ev : Level) (last : Option Expr) : Flow → EvalM Value
  | .result v => pure v
  | _ => lastValue ev last

/-- The body of a function is its first statements and then what its last expression asks for. -/
theorem runBody_eq (ev : Level) (stmts : List Stmt) :
    runBody ev stmts =
      ev.stmts (bodyParts stmts).1 >>= afterStmts ev (bodyParts stmts).2 := by
  unfold runBody
  split
  next first last hSplit =>
  have hParts : bodyParts stmts = (first, last) := hSplit
  rw [hParts]
  refine bind_congr fun flow => ?_
  cases flow with
  | result v => rfl
  | _ => cases last <;> rfl

namespace Mirrors

/-- What a body ends with is mirrored: the value of its last expression, or nil. -/
theorem lastValue (h : LevelsMirror t whole part entering ev ev') (hWhole : whole around)
    (last : Option Expr) :
    Mirrors t around Any (lastValue ev last) (lastValue ev' last) := by
  cases last with
  | none => exact .pure trivial
  | some e => exact mark (h.expr hWhole e)

/-- The body of a function is mirrored as soon as its statements and its last expression are. -/
theorem runBody (h : LevelsMirror t whole part entering ev ev') (hWhole : whole around)
    (hPart : part around) (stmts : List Stmt) :
    Mirrors t around Any (runBody ev stmts) (runBody ev' stmts) := by
  rw [runBody_eq, runBody_eq]
  refine (h.stmts hPart _).bind fun flow _ => ?_
  cases flow with
  | result v => exact .pure trivial
  | _ => exact lastValue h hWhole _

/-- Binding parameters changes the store alone, whether it comes to an end or is refused. -/
theorem quietStep_bindParams (label : String) (params : List Ident) (args : Args) :
    QuietStep (bindParams label params args) := by
  induction params generalizing args with
  | nil =>
      rw [Eval.bindParams]
      split
      · exact .fail _
      · exact .pure _
  | cons param rest ih =>
      rw [Eval.bindParams]
      split
      · next v args hTaken =>
        exact fun m => ih args { m with store := m.env.define m.store param.name v }
      · exact .fail _

end Mirrors

def frameOf (closure : Closure) : Frame :=
  { site := .unit closure.unit, line := closure.function.span.start.line
    label := some closure.function.label }

/-- The call of a function with a certain body, unless there are too many calls already. -/
def enterWith (body : EvalM Value) (closure : Closure) (args : Args) : EvalM Value :=
  inScopes closure.env do
    pushScope
    bindParams closure.function.label closure.function.params args
    withCall closure.unit (withFrame (frameOf closure) body)

/-- The parameters are bound in a new scope, and then the body runs. -/
theorem enterWith_eq (body : EvalM Value) (closure : Closure) (args : Args) (m : Machine) :
    enterWith body closure args m =
      match bindParams closure.function.label closure.function.params args
        (m.pushed closure.env) with
      | .ok () m' => leaving ({ · with env := m.env })
          (withCall closure.unit (withFrame (frameOf closure) body)) m'
      | .error stop m' => .error stop { m' with env := m.env } := by
  have hOpened : enterWith body closure args m = leaving ({ · with env := m.env })
      (EStateM.bind (bindParams closure.function.label closure.function.params args)
        fun _ => withCall closure.unit (withFrame (frameOf closure) body))
      (m.pushed closure.env) := rfl
  rw [hOpened, leaving, EStateM.bind]
  cases bindParams closure.function.label closure.function.params args (m.pushed closure.env) with
  | ok done m' => rfl
  | error stop m' => rfl

/-- A call, of which it is known how functions and builtins are called. -/
def callingWith (onFunction : Closure → EvalM Value) (onBuiltin : Builtin → EvalM Value)
    (function : Value) : EvalM Value := do
  match function with
  | .function cell =>
    match ← readStore (·.functions[cell]?) with
    | some closure => onFunction closure
    | none => fail (.notCallable function.typeName)
  | .builtin b => onBuiltin b
  | v => fail (.notCallable v.typeName)

theorem callValue_eq (ev : Level) (function : Value) (args : Args) :
    callValue ev function args =
      callingWith (callClosure ev · args)
        (fun b => withNative b.name (onStore ((Native.call b).run' args))) function := by
  cases function <;> rfl

/-- A function is called by refusing the call, if there are too many in progress, or by entering its
body. -/
theorem callClosure_eq (ev : Level) (closure : Closure) (args : Args) (m : Machine) :
    callClosure ev closure args m =
      if maxCallDepth ≤ m.calls then .error (.failed { fault := .callDepth }) m
      else enterWith (runBody ev closure.function.body.stmts) closure args m := by
  have hRun : callClosure ev closure args m =
      (if maxCallDepth ≤ m.calls then
          fail .callDepth >>= fun _ =>
            enterWith (runBody ev closure.function.body.stmts) closure args
        else enterWith (runBody ev closure.function.body.stmts) closure args :
          EvalM Value) m := rfl
  rw [hRun]
  split
  · rfl
  · rfl

/-- The surroundings of the body of a function that is called. -/
def Machine.calling (m : Machine) (closure : Closure) : Surroundings :=
  ⟨(frameOf closure).atLine 0 :: m.frames, closure.unit, (closure.env.push m.store).1,
    m.calls + 1, 0⟩

namespace EndsAlike

/-- Entering a function is mirrored if its body is, from the surroundings that it is entered
with. -/
theorem enterWith {m : Machine} {closure : Closure} {body body' : EvalM Value}
    (h : Mirrors t (m.calling closure) Any body body') (args : Args) :
    EndsAlike t m.around Any (enterWith body closure args m) (enterWith body' closure args m) := by
  refine .inScopes (m.pushed closure.env).env ?_
  refine EndsAlike.after (m := m.pushed closure.env)
    (Mirrors.quietStep_bindParams closure.function.label closure.function.params args)
    (fun _ s e => ?_) rfl
  have hLabel : (frameOf closure).label.isSome = true := rfl
  exact EndsAlike.withCall hLabel ((m.pushed closure.env).holding s e) h

/-- A call is mirrored if calls of functions and of builtin functions are; everything else cannot be
called. -/
theorem callingWith {m : Machine} {onFunction onFunction' : Closure → EvalM Value}
    {onBuiltin onBuiltin' : Builtin → EvalM Value} (function : Value)
    (hFunction : ∀ closure,
      EndsAlike t m.around Any (onFunction closure m) (onFunction' closure m))
    (hBuiltin : ∀ b, EndsAlike t m.around Any (onBuiltin b m) (onBuiltin' b m)) :
    EndsAlike t m.around Any (callingWith onFunction onBuiltin function m)
      (callingWith onFunction' onBuiltin' function m) := by
  cases function with
  | function cell =>
      unfold Eval.callingWith
      change EndsAlike t m.around Any (EStateM.bind (readStore (·.functions[cell]?)) _ m)
        (EStateM.bind (readStore (·.functions[cell]?)) _ m)
      cases hFound : m.store.functions[cell]? with
      | none =>
          simp only [EStateM.bind, readStore, hFound]
          exact (QuietStep.fail _).endsAlike t m
      | some closure =>
          simp only [EStateM.bind, readStore, hFound]
          exact hFunction closure
  | builtin b => exact hBuiltin b
  | _ => exact (QuietStep.fail _).endsAlike t m

end EndsAlike

/-- A function is called unless there are too many calls already. -/
theorem LevelsMirror.callClosure (h : LevelsMirror t whole part entering ev ev') {m : Machine}
    {closure : Closure} (hWhole : m.calls < maxCallDepth → whole (m.calling closure))
    (hPart : m.calls < maxCallDepth → part (m.calling closure)) (args : Args) :
    EndsAlike t m.around Any (callClosure ev closure args m) (callClosure ev' closure args m) := by
  rw [callClosure_eq, callClosure_eq]
  split
  · exact ⟨_, rfl, rfl, t.raised _ _⟩
  · next hDepth =>
    have hFew := Nat.lt_of_not_le hDepth
    exact EndsAlike.enterWith (.runBody h (hWhole hFew) (hPart hFew) _) args

end Metagen.Eval
