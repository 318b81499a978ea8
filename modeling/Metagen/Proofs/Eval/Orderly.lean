import Metagen.Eval.Run
import Metagen.Proofs.Eval.Frames

/-! The rules for expressions, statements, calls and the generator leave what they enter, and so do
whole scripts. -/

namespace Metagen.Eval

open Script Emission

/-- Only within a loop a statement may end as loops are left or go on. -/
def Flow.FitsLoop (inLoop : Bool) : Flow → Prop
  | leave | next => inLoop = true
  | normal | result _ => True

/-- An evaluator of parts that leaves whatever it enters. -/
structure OrderlyLevel (scripts : Scripts) (ev : Level) : Prop where
  expr : ∀ here body e, here.body = some body → body.HasNode scripts (.expr e) →
    Orderly scripts here Any (ev.expr e)
  stmt : ∀ here body s, here.body = some body → body.HasNode scripts (.stmt s) →
    Orderly scripts here (Flow.FitsLoop here.inLoop) (ev.stmt s)
  call : ∀ here function args, Orderly scripts here Any (ev.call function args)

variable {scripts : Scripts} {here : Setting} {body : Body} {ev : Level}

namespace OrderlyLevel

theorem callWith (h : OrderlyLevel scripts ev) (function : Value) (positional : List Value) :
    Orderly scripts here Any (ev.callWith function positional) :=
  (Orderly.renderValue function).bindAny fun _ => h.call here function _

/-- Statements of a body are orderly one by one, and may leave a loop only where there is one. -/
theorem stmts (h : OrderlyLevel scripts ev) (hBody : here.body = some body)
    {stmts : List Stmt} (hStmts : ∀ s ∈ stmts, body.HasNode scripts (.stmt s)) :
    Orderly scripts here (Flow.FitsLoop here.inLoop) (ev.stmts stmts) := by
  induction stmts with
  | nil => exact .pure trivial
  | cons s rest ih =>
      have hFirst := h.stmt here body s hBody (hStmts s List.mem_cons_self)
      refine hFirst.bind fun flow hFlow => ?_
      split
      · exact ih fun t ht => hStmts t (List.mem_cons_of_mem _ ht)
      · exact .pure hFlow

theorem block (h : OrderlyLevel scripts ev) (hBody : here.body = some body) {b : Block}
    (hBlock : body.HasNode scripts (.block b)) :
    Orderly scripts here (Flow.FitsLoop here.inLoop) (ev.block b) := by
  refine Orderly.inNewScope (h.stmts hBody fun s hs => ?_)
  exact hBlock.deeper (List.mem_map_of_mem hs)

end OrderlyLevel

namespace Orderly

theorem evalArgs (h : OrderlyLevel scripts ev) (hBody : here.body = some body)
    (callee : String) {args : List (Option Ident × Expr)}
    (hArgs : ∀ arg ∈ args, body.HasNode scripts (.expr arg.2)) :
    Orderly scripts here Any (evalArgs ev callee args) := by
  refine foldlM _ fun arg hArg taken => ?_
  refine (h.expr here body arg.2 hBody (hArgs arg hArg)).bindAny fun v => ?_
  split
  · exact .pure trivial
  · exact .pure trivial

theorem evalPart (h : OrderlyLevel scripts ev) (hBody : here.body = some body)
    {part : Script.Part Expr} (hPart : ∀ e ∈ part.hole?, body.HasNode scripts (.expr e)) :
    Orderly scripts here Any (evalPart ev part) := by
  cases part with
  | text t => exact .pure trivial
  | hole e => exact (h.expr here body e hBody (hPart e rfl)).bindAny fun v => renderValue v

/-- A function is made by the script that it is written in. -/
theorem makeFunction (hBody : here.body = some body) {f : Function}
    (hFunction : body.HasNode scripts (.function f)) :
    Orderly scripts here Any (makeFunction f) := by
  intro m hReady
  have hUnit := (hReady.body body hBody).1
  refine ⟨⟨rfl, rfl, rfl, rfl, rfl⟩, hReady.resume ?_ rfl rfl rfl, trivial⟩
  intro closure hClosure
  rcases Array.mem_push.1 hClosure with hOld | rfl
  · exact hReady.functions closure hOld
  · rw [hUnit]
    exact hFunction.function

theorem callMethod (h : OrderlyLevel scripts ev) {generate : String → Args → EvalM Value}
    (hGenerate : ∀ method args, Orderly scripts here Any (generate method args)) (receiver : Value)
    (method : String) (args : Args) :
    Orderly scripts here Any (callMethod ev generate receiver method args) := by
  have hBuiltin :
      Orderly scripts here Any (Eval.onStore ((Native.callMethod receiver method).run' args)) :=
    native (Native.KeepsFunctions.callMethod receiver method) args
  unfold Eval.callMethod
  cases receiver with
  | generator => exact hGenerate method args
  | record cell =>
      refine (readStore _).bindAny fun found => ?_
      cases found with
      | none => exact hBuiltin
      | some member => exact h.call here member args
  | _ => exact hBuiltin

/-- The end of a call, from its arguments on. -/
theorem callNamed (h : OrderlyLevel scripts ev) (hBody : here.body = some body)
    {span : Span} {callee : Expr} {args : List (Option Ident × Expr)}
    (hCall : body.HasNode scripts (.expr (.call span callee args))) {naming : EvalM String}
    (hNaming : Orderly scripts here Any naming) (function : Value) :
    Orderly scripts here Any (do
      let name ← naming
      let args ← Eval.evalArgs ev name args
      Eval.mark span
      ev.call function args) := by
  have hArgs : ∀ arg ∈ args, body.HasNode scripts (.expr arg.2) := fun arg hArg =>
    hCall.deeper (List.mem_cons_of_mem _ (List.mem_map_of_mem hArg))
  refine hNaming.bindAny fun name => (evalArgs h hBody name hArgs).bindAny fun args => ?_
  exact (mark hBody hCall).bindAny fun _ => h.call here function args

theorem evalCall (h : OrderlyLevel scripts ev) (hBody : here.body = some body)
    {generate : String → Args → EvalM Value}
    (hGenerate : ∀ method args, Orderly scripts here Any (generate method args))
    {span : Span} {callee : Expr} {args : List (Option Ident × Expr)}
    (hCall : body.HasNode scripts (.expr (.call span callee args))) :
    Orderly scripts here Any (evalCall ev generate span callee args) := by
  have hCallee : body.HasNode scripts (.expr callee) := hCall.deeper List.mem_cons_self
  have hArgs : ∀ arg ∈ args, body.HasNode scripts (.expr arg.2) := fun arg hArg =>
    hCall.deeper (List.mem_cons_of_mem _ (List.mem_map_of_mem hArg))
  unfold Eval.evalCall
  cases callee with
  | field _ object field =>
      have hObject : body.HasNode scripts (.expr object) := hCallee.deeper List.mem_cons_self
      refine (h.expr here body object hBody hObject).bindAny fun receiver => ?_
      refine (evalArgs h hBody _ hArgs).bindAny fun args => ?_
      exact (mark hBody hCall).bindAny fun _ => callMethod h hGenerate receiver _ args
  | name _ name =>
      refine (h.expr here body _ hBody hCallee).bindAny fun function => ?_
      exact callNamed h hBody hCall (.pure trivial) function
  | _ =>
      refine (h.expr here body _ hBody hCallee).bindAny fun function => ?_
      exact callNamed h hBody hCall (renderValue function) function

theorem evalBinary (h : OrderlyLevel scripts ev) (hBody : here.body = some body)
    {span : Span} {op : BinaryOp} {left right : Expr}
    (hBinary : body.HasNode scripts (.expr (.binary span op left right))) :
    Orderly scripts here Any (evalBinary ev span op left right) := by
  have hLeft : body.HasNode scripts (.expr left) := hBinary.deeper List.mem_cons_self
  have hRight : body.HasNode scripts (.expr right) :=
    hBinary.deeper (List.mem_cons_of_mem _ List.mem_cons_self)
  unfold Eval.evalBinary
  refine (h.expr here body left hBody hLeft).bindAny fun a => ?_
  split
  · refine (isTrue a).bindAny fun answer => ?_
    exact .ite (h.expr here body right hBody hRight) (.pure trivial)
  · refine (isTrue a).bindAny fun answer => ?_
    exact .ite (.pure trivial) (h.expr here body right hBody hRight)
  · refine (h.expr here body right hBody hRight).bindAny fun b => ?_
    exact (mark hBody hBinary).bindAny fun _ => onStore (.applyBinary _ a b)

/-- Every expression of a body is orderly as soon as its parts are; the cases are the constructors
of expressions. -/
theorem evalExpr (h : OrderlyLevel scripts ev) (hBody : here.body = some body)
    {generate : String → Args → EvalM Value}
    (hGenerate : ∀ method args, Orderly scripts here Any (generate method args))
    {e : Expr} (hExpr : body.HasNode scripts (.expr e)) :
    Orderly scripts here Any (evalExpr ev generate e) := by
  have hPart : ∀ inner, .expr inner ∈ e.parts → Orderly scripts here Any (ev.expr inner) :=
    fun inner hInner =>
    h.expr here body inner hBody (hExpr.deeper hInner)
  unfold Eval.evalExpr
  refine (mark hBody hExpr).bindAny fun _ => ?_
  cases e with
  | int _ n => exact .pure trivial
  | float _ x => exact .pure trivial
  | text _ t => exact .pure trivial
  | interpolation _ parts =>
      refine (mapM fun part hMem => evalPart h hBody fun e he => ?_).bindAny fun _ =>
        .pure trivial
      exact hExpr.deeper (List.mem_map_of_mem (List.mem_filterMap.2 ⟨part, hMem, he⟩))
  | bool _ b => exact .pure trivial
  | nil _ => exact .pure trivial
  | list _ items =>
      refine (mapM fun item hItem => hPart item ?_).bindAny fun _ => makeCell fun _ => rfl
      exact List.mem_map_of_mem hItem
  | record _ fields =>
      refine (mapM fun field hField => ?_).bindAny fun _ => makeCell fun _ => rfl
      refine (hPart field.2 ?_).bindAny fun _ => .pure trivial
      exact List.mem_map_of_mem hField
  | name _ name => exact fun m hReady => onStore (.lookUp m.env name) m hReady
  | call span callee args => exact evalCall h hBody hGenerate hExpr
  | field span object field =>
      refine (hPart object (by simp [Expr.parts])).bindAny fun v => ?_
      exact (mark hBody hExpr).bindAny fun _ => onStore (.fieldOf v field.name)
  | index span object index =>
      refine (hPart object (by simp [Expr.parts])).bindAny fun v => ?_
      refine (hPart index (by simp [Expr.parts])).bindAny fun i => ?_
      exact (mark hBody hExpr).bindAny fun _ => onStore (.itemOf v i)
  | binary span op left right => exact evalBinary h hBody hExpr
  | unary _ op operand =>
      refine (hPart operand (by simp [Expr.parts])).bindAny fun v => ?_
      cases op with
      | not => exact (isTrue v).bindAny fun _ => .pure trivial
      | neg => exact onStore (.negate v)
  | lambda f => exact makeFunction hBody (hExpr.deeper List.mem_cons_self)
  | paren _ inner => exact hPart inner (by simp [Expr.parts])

/-- An assignment to a name binds it, and makes and changes no function. -/
theorem functions_set? {env : Env} {s s' : Store} {name : String} {v : Value}
    (hSet : env.set? s name v = some s') : s'.functions = s.functions := by
  unfold Env.set? at hSet
  split at hSet
  · obtain rfl := Option.some.inj hSet
    rfl
  · split at hSet
    · obtain rfl := Option.some.inj hSet
      rfl
    · cases hSet

theorem assignName (name : String) (v : Value) (span : Span) :
    Orderly scripts here Any (Eval.assign ev v (.name span name)) := by
  intro m hReady
  rw [assign_name]
  cases hSet : m.env.set? m.store name v with
  | none => exact fail _ m hReady
  | some changed =>
      refine ⟨⟨rfl, rfl, rfl, rfl, rfl⟩, hReady.resume ?_ rfl rfl rfl, trivial⟩
      intro closure hClosure
      exact hReady.functions closure (functions_set? hSet ▸ hClosure)

/-- An assignment is orderly: what it assigns to is part of the same body. -/
theorem assign (h : OrderlyLevel scripts ev) (hBody : here.body = some body) (v : Value)
    {target : Expr} (hTarget : body.HasNode scripts (.expr target)) :
    Orderly scripts here Any (assign ev v target) := by
  induction target using Eval.assign.induct with
  | case1 span name => exact assignName name v span
  | case2 span object field =>
      unfold Eval.assign
      refine (h.expr here body object hBody (hTarget.deeper List.mem_cons_self)).bindAny
        fun o => ?_
      exact onStore (.setField o v field.name)
  | case3 span object index =>
      unfold Eval.assign
      refine (h.expr here body object hBody (hTarget.deeper List.mem_cons_self)).bindAny
        fun o => ?_
      refine (h.expr here body index hBody
        (hTarget.deeper (List.mem_cons_of_mem _ List.mem_cons_self))).bindAny fun i => ?_
      exact onStore (.setItem o i v)
  | case4 span inner ih =>
      unfold Eval.assign
      exact ih (hTarget.deeper List.mem_cons_self)
  | case5 other hName hField hIndex hParen =>
      rw [assign_of_ne hName hField hIndex hParen]
      exact fail _

/-- By induction over a branch: conditions and blocks of it belong to the same body. -/
theorem runBranch (h : OrderlyLevel scripts ev) (hBody : here.body = some body)
    {b : Branch} (hBranch : body.HasNode scripts (.branch b)) :
    Orderly scripts here (Flow.FitsLoop here.inLoop) (runBranch ev b) := by
  induction b using Eval.runBranch.induct with
  | case1 span condition block otherwise ih =>
      have hCondition : body.HasNode scripts (.expr condition) :=
        hBranch.deeper (by simp [Node.parts])
      unfold Eval.runBranch
      refine (h.expr here body condition hBody hCondition).bindAny fun c => ?_
      refine (isTrue c).bindAny fun answer => .ite ?_ ?_
      · exact h.block hBody (hBranch.deeper (by simp [Node.parts]))
      · cases otherwise with
        | nothing => exact .pure trivial
        | block other =>
            exact h.block hBody (hBranch.deeper (by simp [Node.parts, Otherwise.parts]))
        | branch next =>
            have hNext : body.HasNode scripts (.branch next) :=
              hBranch.deeper (by simp [Node.parts, Otherwise.parts])
            exact (mark hBody hNext).bindAny fun _ => ih hNext

/-- Finding out what a loop runs through only reads the store, and fails in the running frame if
there is nothing. -/
theorem iterated (v : Value) : Orderly scripts here Any (iterated v) := by
  unfold Eval.iterated
  split
  · exact readStore _
  · exact .pure trivial
  · exact readStore _
  · exact fail _

/-- A loop goes on or ends as its body says, and ends normally or with a result. -/
theorem loopBody {action : EvalM Flow} {after : Flow → EvalM Flow} {good : Flow → Prop}
    (h : Orderly scripts here good action) (hNormal : ∀ inLoop, Orderly scripts here
      (Flow.FitsLoop inLoop) (after .normal))
    (hNext : after .next = after .normal) (hLeave : after .leave = Pure.pure .normal)
    (hResult : ∀ v, after (.result v) = Pure.pure (.result v)) (inLoop : Bool) :
    Orderly scripts here (Flow.FitsLoop inLoop) (action >>= after) := by
  refine h.bind fun flow _ => ?_
  cases flow with
  | normal => exact hNormal inLoop
  | next =>
      rw [hNext]
      exact hNormal inLoop
  | leave =>
      rw [hLeave]
      exact .pure trivial
  | result v =>
      rw [hResult]
      exact .pure trivial

/-- A round of a loop is orderly in the scope that it opens and leaves. -/
theorem runItem (h : OrderlyLevel scripts ev) (hBody : here.body = some body)
    (item : Ident) (index : Option Ident) {block : Block}
    (hBlock : body.HasNode scripts (.block block)) (i : Nat) (v : Value) :
    Orderly scripts here (Flow.FitsLoop here.inLoop) (runItem ev item index block i v) := by
  have hStmts : Orderly scripts here (Flow.FitsLoop here.inLoop) (ev.stmts block.stmts) :=
    h.stmts hBody fun s hs => hBlock.deeper (List.mem_map_of_mem hs)
  refine inNewScope ((define _ _).bindAny fun _ => ?_)
  cases index with
  | none => exact hStmts
  | some index => exact (define _ _).bindAny fun _ => hStmts

/-- By induction over the items: a loop is orderly, and leaving it or going on stays inside of
it. -/
theorem runItems (h : OrderlyLevel scripts ev) (hBody : here.body = some body)
    (item : Ident) (index : Option Ident) {block : Block}
    (hBlock : body.HasNode scripts (.block block))
    (i : Nat) (items : List Value) (inLoop : Bool) :
    Orderly scripts here (Flow.FitsLoop inLoop) (runItems ev item index block i items) := by
  induction items generalizing i inLoop with
  | nil => exact .pure trivial
  | cons v rest ih =>
      rw [Eval.runItems]
      exact loopBody (runItem h hBody item index hBlock i v) (ih (i + 1)) (by rfl) (by rfl)
        (by exact fun _ => rfl) inLoop

/-- By induction on the bound of rounds: a loop is orderly, and leaving it or going on stays inside
of it. -/
theorem runRounds (h : OrderlyLevel scripts ev) (hBody : here.body = some body)
    {span : Span} {condition : Expr} {block : Block}
    (hLoop : body.HasNode scripts (.stmt (.whileTrue span condition block))) (fuel : Nat)
    (inLoop : Bool) :
    Orderly scripts here (Flow.FitsLoop inLoop) (runRounds ev span condition block fuel) := by
  have hCondition : body.HasNode scripts (.expr condition) := hLoop.deeper List.mem_cons_self
  have hBlock : body.HasNode scripts (.block block) :=
    hLoop.deeper (List.mem_cons_of_mem _ List.mem_cons_self)
  induction fuel generalizing inLoop with
  | zero => exact outOfFuel
  | succ fuel ih =>
      rw [Eval.runRounds]
      refine (mark hBody hLoop).bindAny fun _ => ?_
      refine (h.expr here body condition hBody hCondition).bindAny fun c => ?_
      refine (isTrue c).bindAny fun answer => .ite ?_ (.pure trivial)
      exact loopBody (h.block hBody hBlock) ih (by rfl) (by rfl) (by exact fun _ => rfl) inLoop

/-- A loop control statement succeeds only within a loop. -/
theorem runLoopControl (word : LoopWord) {flow : Flow} (hFlow : flow.FitsLoop true) :
    Orderly scripts here (Flow.FitsLoop here.inLoop) (runLoopControl word flow) := by
  intro m hReady
  change LeavesOrderly scripts here m _
    ((if m.loops == 0 then Eval.fail _ else Pure.pure flow : EvalM Flow) m)
  split
  · exact fail _ m hReady
  · next hLoops =>
    refine ⟨.refl m, hReady, ?_⟩
    cases hInside : here.inLoop with
    | true => exact hFlow
    | false => exact (hLoops (beq_iff_eq.2 (hReady.loops hInside))).elim

theorem runCheck (h : OrderlyLevel scripts ev) (hBody : here.body = some body)
    {span : Span} {condition : Expr} {message : Option Expr}
    (hCheck : body.HasNode scripts (.stmt (.check span condition message))) :
    Orderly scripts here (Flow.FitsLoop here.inLoop) (runCheck ev span condition message) := by
  refine (h.expr here body condition hBody (hCheck.deeper List.mem_cons_self)).bindAny
    fun c => ?_
  refine (isTrue c).bindAny fun answer => .ite (.pure trivial) ?_
  refine bindAny ?_ fun text => (mark hBody hCheck).bindAny fun _ => fail _
  cases message with
  | none => exact .pure trivial
  | some e =>
      have hMessage : body.HasNode scripts (.expr e) :=
        hCheck.deeper (List.mem_cons_of_mem _ List.mem_cons_self)
      exact (h.expr here body e hBody hMessage).bindAny fun v => renderValue v

theorem functions_declareGlobals (env : Env) (names : List Ident) (s : Store) :
    (names.foldl (fun s name => env.declareGlobal s name.name) s).functions = s.functions := by
  induction names generalizing s with
  | nil => rfl
  | cons name rest ih => exact ih _

/-- Every statement of a body is orderly as soon as its parts are; the cases are the constructors of
statements. -/
theorem runStmt (h : OrderlyLevel scripts ev) (hBody : here.body = some body)
    {s : Stmt} (hStmt : body.HasNode scripts (.stmt s)) :
    Orderly scripts here (Flow.FitsLoop here.inLoop) (runStmt ev s) := by
  have hPart : ∀ e, .expr e ∈ s.parts → Orderly scripts here Any (ev.expr e) :=
    fun e he => h.expr here body e hBody (hStmt.deeper he)
  have hInside : { here with inLoop := true }.body = some body := hBody
  unfold Eval.runStmt
  refine (mark hBody hStmt).bindAny fun _ => ?_
  cases s with
  | bind _ name value =>
      refine (hPart value List.mem_cons_self).bindAny fun v => ?_
      exact (define _ _).bindAny fun _ => .pure trivial
  | assign span target value =>
      have hTarget : body.HasNode scripts (.expr target) := hStmt.deeper List.mem_cons_self
      refine (hPart value (by simp [Stmt.parts])).bindAny fun v => ?_
      refine (mark hBody hStmt).bindAny fun _ => ?_
      exact (assign h hBody v hTarget).bindAny fun _ => .pure trivial
  | function f =>
      dsimp only
      split
      · refine (makeFunction hBody (hStmt.deeper List.mem_cons_self)).bindAny fun v => ?_
        exact (define _ _).bindAny fun _ => .pure trivial
      · exact .pure trivial
  | branch b => exact runBranch h hBody (hStmt.deeper List.mem_cons_self)
  | forEach _ item index iterable block =>
      refine (hPart iterable List.mem_cons_self).bindAny fun v => ?_
      refine (iterated v).bindAny fun items => withLoop ?_
      exact runItems h hInside item index
        (hStmt.deeper (List.mem_cons_of_mem _ List.mem_cons_self)) 0 items _
  | whileTrue span condition block => exact withLoop (runRounds h hInside hStmt ev.fuel _)
  | leave _ => exact runLoopControl _ rfl
  | next _ => exact runLoopControl _ rfl
  | result _ value =>
      cases value with
      | none => exact .pure trivial
      | some e => exact (hPart e List.mem_cons_self).bindAny fun v => .pure trivial
  | check span condition message => exact runCheck h hBody hStmt
  | globals _ names =>
      refine (changeStore fun env => functions_declareGlobals env names).bindAny fun _ => ?_
      exact .pure trivial
  | expr e =>
      exact ((hPart e List.mem_cons_self).map).bindAny fun _ => .pure trivial

/-- The body of a function is orderly as its statements are, and so is the expression that stands
last. -/
theorem runBody (h : OrderlyLevel scripts ev) (hBody : here.body = some body)
    {block : Block} (hBlock : body.HasNode scripts (.block block)) :
    Orderly scripts here Any (runBody ev block.stmts) := by
  have hStmts : ∀ s ∈ block.stmts, body.HasNode scripts (.stmt s) := fun s hs =>
    hBlock.deeper (List.mem_map_of_mem hs)
  unfold Eval.runBody
  split
  next first last hSplit =>
  have hParts : (∀ s ∈ first, s ∈ block.stmts) ∧ ∀ e ∈ last, .expr e ∈ block.stmts := by
    split at hSplit
    · next e hLast =>
      cases hSplit
      refine ⟨fun s hs => (List.dropLast_sublist _).subset hs, ?_⟩
      rintro _ ⟨⟩
      exact List.mem_of_getLast? hLast
    · cases hSplit
      exact ⟨fun _ => id, nofun⟩
  refine (h.stmts hBody fun s hs => hStmts s (hParts.1 s hs)).bind fun flow _ => ?_
  split
  · exact .pure trivial
  · cases last with
    | none => exact .pure trivial
    | some e =>
        have hExpr : body.HasNode scripts (.expr e) := (hStmts _ (hParts.2 e rfl)).deeper
          List.mem_cons_self
        exact (mark hBody hExpr).bindAny fun _ => h.expr here body e hBody hExpr

theorem bindParams (label : String) (params : List Ident) (args : Args) :
    Orderly scripts here Any (bindParams label params args) := by
  induction params generalizing args with
  | nil =>
      rw [Eval.bindParams]
      split
      · exact fail _
      · exact .pure trivial
  | cons param rest ih =>
      rw [Eval.bindParams]
      split
      · exact (define _ _).bindAny fun _ => ih _
      · exact fail _

/-- A call is orderly: it enters the frame of the function, in the script where the function was
written, and leaves it. -/
theorem callClosure (h : OrderlyLevel scripts ev) {closure : Closure} (args : Args)
    (hClosure : (Body.function closure.unit closure.function).HasNode scripts
      (.function closure.function)) :
    Orderly scripts here Any (callClosure ev closure args) := by
  have hCall : Orderly scripts here Any (Eval.inScopes closure.env do
      Eval.pushScope
      Eval.bindParams closure.function.label closure.function.params args
      Eval.withCall closure.unit (Eval.withFrame
        { site := .unit closure.unit, line := closure.function.span.start.line,
          label := some closure.function.label }
        (Eval.runBody ev closure.function.body.stmts))) := by
    refine inScopes _ (pushScope.bindAny fun _ => (bindParams _ _ _).bindAny fun _ => ?_)
    exact withCall hClosure (runBody h rfl (hClosure.deeper List.mem_cons_self))
  unfold Eval.callClosure
  intro m hReady
  change LeavesOrderly scripts here m Any
    ((if maxCallDepth ≤ m.calls then (Eval.fail .callDepth >>= fun _ => _) else _ : EvalM Value) m)
  split
  · exact ((fail _).bindAny fun _ => hCall) m hReady
  · exact hCall m hReady

/-- Whatever is called: a function of a script fits its script, and a builtin function has a frame
without a line. -/
theorem callValue (h : OrderlyLevel scripts ev) (function : Value) (args : Args) :
    Orderly scripts here Any (callValue ev function args) := by
  unfold Eval.callValue
  cases function with
  | function cell =>
      intro m hReady
      change LeavesOrderly scripts here m Any
        (EStateM.bind (Eval.readStore (·.functions[cell]?)) _ m)
      cases hFound : m.store.functions[cell]? with
      | none =>
          simp only [EStateM.bind, Eval.readStore, hFound]
          exact fail _ m hReady
      | some closure =>
          simp only [EStateM.bind, Eval.readStore, hFound]
          have hFits := hReady.functions closure (Array.mem_of_getElem? hFound)
          exact callClosure h args hFits m hReady
  | builtin b => exact withNative _ (native (.call b) args)
  | _ => exact fail _

end Orderly

end Metagen.Eval
