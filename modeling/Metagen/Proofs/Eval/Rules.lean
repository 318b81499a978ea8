import Metagen.Eval.Call
import Metagen.Eval.Statement
import Metagen.Proofs.Eval.Operators

/-! The rules for expressions, statements and calls keep what is guarded, if the evaluator of their
parts does. -/

namespace Metagen

open Eval Script

namespace Guard

variable {g : Guard} {s : Store} {ev : Level}

def FreeFlow (g : Guard) (s : Store) : Flow → Prop
  | .result v => g.FreeValue s v
  | _ => True

/-- An evaluator of parts that keeps what is guarded. -/
structure SafeLevel (g : Guard) (ev : Level) : Prop where
  expr : ∀ s e, g.Safe s (ev.expr e) g.FreeValue
  stmt : ∀ s st, g.Safe s (ev.stmt st) g.FreeFlow
  call : ∀ s function args, g.FreeValue s function → g.FreeArgs s args →
    g.Safe s (ev.call function args) g.FreeValue

/-- A step that calls a method of the generator. -/
def SafeGenerate (g : Guard) (generate : String → Args → EvalM Value) : Prop :=
  ∀ s method args, g.FreeArgs s args → g.Safe s (generate method args) g.FreeValue

theorem FreeFlow.mono {t : Store} {flow : Flow} (h : g.FreeFlow s flow) (hGrown : s.Grown t) :
    g.FreeFlow t flow := by
  cases flow with
  | result v => exact FreeValue.mono h hGrown
  | _ => exact trivial

/-- Calling a free function with free positional arguments is safe. -/
theorem SafeLevel.callWith (h : g.SafeLevel ev) {function : Value} {positional : List Value}
    (hFunction : g.FreeValue s function) (hPositional : g.FreeValues s positional) :
    g.Safe s (ev.callWith function positional) g.FreeValue := by
  refine (Safe.renderValue function).bindPlain fun callee t hGrown => ?_
  exact h.call t function _ (hFunction.mono hGrown)
    (freeArgs_of_positional (hPositional.mono hGrown))

/-- By induction over statements: they are safe one by one, and what ends them is free. -/
theorem SafeLevel.stmts (h : g.SafeLevel ev) (stmts : List Stmt) :
    g.Safe s (ev.stmts stmts) g.FreeFlow := by
  induction stmts generalizing s with
  | nil => exact .pure fun _ _ => trivial
  | cons st rest ih =>
      refine (h.stmt s st).bind fun flow t hGrown hFlow => ?_
      split
      · exact ih
      · exact .pure fun _ hLater => hFlow.mono hLater

theorem SafeLevel.block (h : g.SafeLevel ev) (b : Block) : g.Safe s (ev.block b) g.FreeFlow :=
  Safe.inNewScope fun _ _ => h.stmts b.stmts

namespace Safe

/-- Arguments are evaluated to free values in their order. -/
theorem evalArgs (h : g.SafeLevel ev) (callee : String)
    (args : List (Option Ident × Expr)) :
    g.Safe s (Eval.evalArgs ev callee args) g.FreeArgs := by
  refine foldlM (fun _ _ _ hGrown hTaken => hTaken.mono hGrown)
    (freeArgs_of_positional freeValues_nil) fun arg _ taken t hGrown hTaken => ?_
  refine (h.expr t arg.2).bind fun v u hNext hv => ?_
  split
  · refine .pure fun x hLater => ⟨hTaken.positional.mono (hNext.trans hLater), ?_⟩
    exact (hTaken.named.mono (hNext.trans hLater)).insert (hv.mono hLater) _
  · refine .pure fun x hLater => ⟨?_, hTaken.named.mono (hNext.trans hLater)⟩
    simpa using ⟨hTaken.positional.mono (hNext.trans hLater), hv.mono hLater⟩

theorem evalPart (h : g.SafeLevel ev)
    (part : Script.Part Expr) : g.Safe s (Eval.evalPart ev part) Plain := by
  cases part with
  | text t => exact .pure fun _ _ => trivial
  | hole e => exact (h.expr s e).bind fun v t _ _ => renderValue v

theorem makeFunction (f : Function) :
    g.Safe s (Eval.makeFunction f) g.FreeValue := by
  refine get.bind fun m t _ hm => makeCell fun u hLater hKeeps => ?_
  obtain ⟨rfl, hReached⟩ := hm
  exact hKeeps.newFunction (hReached.env.mono hLater)

/-- A method of a free value is safe: one of the generator, a field of a record, or a builtin
one. -/
theorem callMethod (h : g.SafeLevel ev) {generate : String → Args → EvalM Value}
    (hGenerate : g.SafeGenerate generate) {receiver : Value} {args : Args}
    (hReceiver : g.FreeValue s receiver) (method : String) (hArgs : g.FreeArgs s args) :
    g.Safe s (Eval.callMethod ev generate receiver method args) g.FreeValue := by
  have hBuiltin : ∀ t, s.Grown t →
      g.Safe t (Eval.onStore ((Native.callMethod receiver method).run' args)) g.FreeValue := by
    intro t hGrown
    exact native (SafeSteps.callMethod (hReceiver.mono hGrown) method) (hArgs.mono hGrown)
  unfold Eval.callMethod
  cases receiver with
  | generator => exact hGenerate s method args hArgs
  | record cell =>
      have hMember : g.Safe s (Eval.readStore fun t => (t.recordAt cell).get? method)
          fun t found => ∀ v ∈ found, g.FreeValue t v := by
        apply readStore
        intro t hGrown hKeeps v hv
        exact (hKeeps.recordAt (freeValue_record.1 (hReceiver.mono hGrown))).get? hv
      refine hMember.bind fun found t hGrown hFound => ?_
      cases found with
      | none => exact hBuiltin t hGrown
      | some member => exact h.call t member args (hFound member rfl) (hArgs.mono hGrown)
  | _ => exact hBuiltin s (.refl s)

/-- A call of a function that may be named in some way in messages. -/
theorem callNamed (h : g.SafeLevel ev) (span : Span)
    (callee : Expr) (args : List (Option Ident × Expr)) {naming : Value → EvalM String}
    (hNaming : ∀ function t, g.Safe t (naming function) Plain) :
    g.Safe s (do
      let function ← ev.expr callee
      let name ← naming function
      let args ← Eval.evalArgs ev name args
      Eval.mark span
      ev.call function args) g.FreeValue := by
  refine (h.expr s callee).bind fun function t hGrown hFree => ?_
  refine (hNaming function t).bindPlain fun name u hNext => ?_
  refine (evalArgs h name args).bind fun args x hLater hArgs => ?_
  refine (mark span).bindPlain fun _ y hLast => ?_
  exact h.call y function args (hFree.mono (hNext.trans (hLater.trans hLast))) (hArgs.mono hLast)

/-- A call is safe: what is called and its arguments are free. -/
theorem evalCall (h : g.SafeLevel ev) {generate : String → Args → EvalM Value}
    (hGenerate : g.SafeGenerate generate) (span : Span)
    (callee : Expr) (args : List (Option Ident × Expr)) :
    g.Safe s (Eval.evalCall ev generate span callee args) g.FreeValue := by
  unfold Eval.evalCall
  cases callee with
  | field _ object field =>
      refine (h.expr s object).bind fun receiver t hGrown hReceiver => ?_
      refine (evalArgs h _ args).bind fun args u hNext hArgs => ?_
      refine (mark span).bindPlain fun _ x hLater => ?_
      exact callMethod h hGenerate (hReceiver.mono (hNext.trans hLater)) _ (hArgs.mono hLater)
  | name _ name => exact callNamed h span _ args fun _ _ => .pure fun _ _ => trivial
  | _ => exact callNamed h span _ args fun function _ => renderValue function

theorem evalBinary (h : g.SafeLevel ev) (span : Span)
    (op : BinaryOp) (left right : Expr) :
    g.Safe s (Eval.evalBinary ev span op left right) g.FreeValue := by
  unfold Eval.evalBinary
  refine (h.expr s left).bind fun a t hGrown ha => ?_
  split
  · refine (isTrue a).bindPlain fun answer u hNext => ?_
    split
    · exact h.expr u right
    · exact .pure fun _ hLater => ha.mono (hNext.trans hLater)
  · refine (isTrue a).bindPlain fun answer u hNext => ?_
    split
    · exact .pure fun _ hLater => ha.mono (hNext.trans hLater)
    · exact h.expr u right
  · refine (h.expr t right).bind fun b u hNext hb => ?_
    refine (mark span).bindPlain fun _ x hLater => ?_
    exact onStore (applyBinary _ (ha.mono (hNext.trans hLater)) (hb.mono hLater))

/-- Every expression gives a free value as soon as its parts do; the cases are the constructors of
expressions. -/
theorem evalExpr (h : g.SafeLevel ev) {generate : String → Args → EvalM Value}
    (hGenerate : g.SafeGenerate generate) (e : Expr) :
    g.Safe s (Eval.evalExpr ev generate e) g.FreeValue := by
  unfold Eval.evalExpr
  refine (mark _).bindPlain fun _ t hStart => ?_
  cases e with
  | int _ n => exact .pure fun _ _ => freeValue_of_cell?_eq_none rfl
  | float _ x => exact .pure fun _ _ => freeValue_of_cell?_eq_none rfl
  | text _ x => exact .pure fun _ _ => freeValue_of_cell?_eq_none rfl
  | interpolation _ parts =>
      have hParts : g.Safe t (parts.mapM (Eval.evalPart ev)) Plain :=
        (mapM (fun _ _ _ _ _ => trivial) fun part _ u _ => evalPart h part).plain
      exact hParts.bindPlain fun _ _ _ => .pure fun _ _ => freeValue_of_cell?_eq_none rfl
  | bool _ b => exact .pure fun _ _ => freeValue_of_cell?_eq_none rfl
  | nil _ => exact .pure fun _ _ => freeValue_of_cell?_eq_none rfl
  | list _ items =>
      have hItems : g.Safe t (items.mapM ev.expr) g.FreeValues :=
        mapM (fun _ _ _ hGrown hv => hv.mono hGrown) fun item _ u _ => h.expr u item
      refine hItems.bind fun values u _ hValues => makeCell fun x hLater hKeeps => ?_
      exact hKeeps.newList (by simpa using hValues.mono hLater)
  | record _ fields =>
      refine Safe.bind (show g.Safe t _ fun u entries => ∀ entry ∈ entries, g.FreeValue u entry.2
        from ?_) fun entries u _ hEntries => ?_
      · refine mapM (fun _ _ _ hGrown hv => hv.mono hGrown) fun field _ u hGrown => ?_
        exact (h.expr u field.2).bind fun v x _ hv =>
          .pure fun _ hLater => hv.mono hLater
      · refine makeCell fun x hLater hKeeps => hKeeps.newRecord fun v hv => ?_
        obtain ⟨entry, hEntry, rfl⟩ := List.mem_map.1 (Bindings.mem_values_ofList hv)
        exact (hEntries entry hEntry).mono hLater
  | name _ name =>
      refine get.bind fun m u _ hm => onStore ?_
      obtain ⟨rfl, hReached⟩ := hm
      exact lookUp hReached.env name
  | call span callee args => exact evalCall h hGenerate span callee args
  | field span object field =>
      refine (h.expr t object).bind fun v u _ hv => ?_
      refine (mark span).bindPlain fun _ x hLater => ?_
      exact onStore (fieldOf (hv.mono hLater) field.name)
  | index span object index =>
      refine (h.expr t object).bind fun v u hGrown hv => ?_
      refine (h.expr u index).bind fun i x hNext _ => ?_
      refine (mark span).bindPlain fun _ y hLater => ?_
      exact onStore (itemOf (hv.mono (hNext.trans hLater)) i)
  | binary span op left right => exact evalBinary h span op left right
  | unary _ op operand =>
      refine (h.expr t operand).bind fun v u _ hv => ?_
      cases op with
      | not =>
          refine (isTrue v).bindPlain fun _ _ _ => ?_
          exact .pure fun _ _ => freeValue_of_cell?_eq_none rfl
      | neg => exact onStore (negate v)
  | lambda f => exact makeFunction f
  | paren _ inner => exact h.expr t inner

theorem assignName {v : Value} (hv : g.FreeValue s v) (span : Span) (name : String) :
    g.Safe s (Eval.assign ev v (.name span name)) Plain := by
  intro m hReached
  rw [assign_name]
  cases hSet : m.env.set? m.store name v with
  | none => exact hReached.refl
  | some changed =>
      have hAdvances := hReached.keeps.envSet? hReached.env (hv.mono hReached.grown) hSet
      exact ⟨hReached.sameScopes hAdvances rfl, trivial⟩

/-- Assigning a free value is safe, whatever it is assigned to. -/
theorem assign (h : g.SafeLevel ev) {v : Value}
    (hv : g.FreeValue s v) (target : Expr) : g.Safe s (Eval.assign ev v target) Plain := by
  induction target using Eval.assign.induct with
  | case1 span name => exact assignName hv span name
  | case2 span object field =>
      unfold Eval.assign
      refine (h.expr s object).bind fun o t hGrown ho => ?_
      exact onStore (setField ho (hv.mono hGrown) field.name)
  | case3 span object index =>
      unfold Eval.assign
      refine (h.expr s object).bind fun o t hGrown ho => ?_
      refine (h.expr t index).bind fun i u hNext _ => ?_
      exact onStore (setItem (ho.mono hNext) (hv.mono (hGrown.trans hNext)) i)
  | case4 span inner ih =>
      unfold Eval.assign
      exact ih
  | case5 other hName hField hIndex hParen =>
      rw [assign_of_ne hName hField hIndex hParen]
      exact fail _

/-- By induction over a branch: the block that is taken runs in a scope that is new and therefore
free. -/
theorem runBranch (h : g.SafeLevel ev) (b : Branch) :
    g.Safe s (Eval.runBranch ev b) g.FreeFlow := by
  induction b using Eval.runBranch.induct generalizing s with
  | case1 span condition body otherwise ih =>
      unfold Eval.runBranch
      refine (h.expr s condition).bind fun c t hGrown _ => ?_
      refine (isTrue c).bindPlain fun answer u hNext => ?_
      split
      · exact h.block body
      · cases otherwise with
        | nothing => exact .pure fun _ _ => trivial
        | block body => exact h.block body
        | branch next => exact (mark next.span).bindPlain fun _ x _ => ih

/-- A loop over a free value runs through free values. -/
theorem iterated {v : Value} (hv : g.FreeValue s v) :
    g.Safe s (Eval.iterated v) g.FreeValues := by
  unfold Eval.iterated
  cases v with
  | list cell =>
      apply readStore
      intro t hGrown hKeeps
      exact hKeeps.listAt (freeValue_list.1 (hv.mono hGrown))
  | text x =>
      refine .pure fun t _ => SafeSteps.freeValues_of_cell? ?_
      simp [Value.cell?]
  | record cell =>
      refine readStore fun t _ _ => SafeSteps.freeValues_of_cell? ?_
      simp [Value.cell?]
  | _ => exact fail _

/-- A loop goes on or ends as its body says. -/
theorem loopBody {action : EvalM Flow} {after : Flow → EvalM Flow} (h : g.Safe s action g.FreeFlow)
    (hNormal : ∀ t, s.Grown t → g.Safe t (after .normal) g.FreeFlow)
    (hNext : ∀ t, s.Grown t → g.Safe t (after .next) g.FreeFlow)
    (hLeave : after .leave = Pure.pure .normal)
    (hResult : ∀ v, after (.result v) = Pure.pure (.result v)) :
    g.Safe s (action >>= after) g.FreeFlow := by
  refine h.bind fun flow t hGrown hFlow => ?_
  cases flow with
  | normal => exact hNormal t hGrown
  | next => exact hNext t hGrown
  | leave =>
      rw [hLeave]
      exact .pure fun _ _ => trivial
  | result v =>
      rw [hResult]
      exact .pure fun _ hLater => FreeFlow.mono hFlow hLater

/-- A round of a loop binds a free item in a new scope, which is free. -/
theorem runItem (h : g.SafeLevel ev) (item : Ident) (index : Option Ident) (body : Block)
    (i : Nat) {v : Value} (hv : g.FreeValue s v) :
    g.Safe s (Eval.runItem ev item index body i v) g.FreeFlow := by
  refine inNewScope fun t hGrown => ?_
  refine (define (hv.mono hGrown) item.name).bindPlain fun _ u _ => ?_
  cases index with
  | none => exact h.stmts body.stmts
  | some index =>
      have hIndex : g.FreeValue u (.int (.ofNat i)) := freeValue_of_cell?_eq_none rfl
      exact (define hIndex index.name).bindPlain fun _ x _ => h.stmts body.stmts

/-- By induction over the items: a loop over free values is safe. -/
theorem runItems (h : g.SafeLevel ev) (item : Ident) (index : Option Ident) (body : Block)
    (i : Nat) {items : List Value} (hItems : g.FreeValues s items) :
    g.Safe s (Eval.runItems ev item index body i items) g.FreeFlow := by
  induction items generalizing s i with
  | nil => exact .pure fun _ _ => trivial
  | cons v rest ih =>
      obtain ⟨hv, hRest⟩ := freeValues_cons.1 hItems
      have hAgain : ∀ t, s.Grown t →
          g.Safe t (Eval.runItems ev item index body (i + 1) rest) g.FreeFlow :=
        fun t hGrown => ih (i + 1) (hRest.mono hGrown)
      rw [Eval.runItems]
      exact loopBody (runItem h item index body i hv) hAgain hAgain rfl fun _ => rfl

/-- By induction on the bound of rounds: a loop with a condition is safe. -/
theorem runRounds (h : g.SafeLevel ev) (span : Span) (condition : Expr) (body : Block)
    (fuel : Nat) : g.Safe s (Eval.runRounds ev span condition body fuel) g.FreeFlow := by
  induction fuel generalizing s with
  | zero => exact throw _
  | succ fuel ih =>
      rw [Eval.runRounds]
      refine (mark span).bindPlain fun _ t _ => ?_
      refine (h.expr t condition).bind fun c u _ _ => ?_
      refine (isTrue c).bindPlain fun answer x _ => ?_
      split
      · exact loopBody (h.block body) (fun _ _ => ih) (fun _ _ => ih) rfl fun _ => rfl
      · exact .pure fun _ _ => trivial

/-- Leaving a loop and going on with it are safe; outside of loops they fail. -/
theorem runLoopControl (word : LoopWord) {flow : Flow} (hFlow : ∀ t, g.FreeFlow t flow) :
    g.Safe s (Eval.runLoopControl word flow) g.FreeFlow := by
  refine get.bind fun m t _ _ => ?_
  split
  · exact fail _
  · exact .pure fun u _ => hFlow u

theorem runCheck (h : g.SafeLevel ev) (span : Span)
    (condition : Expr) (message : Option Expr) :
    g.Safe s (Eval.runCheck ev span condition message) g.FreeFlow := by
  refine (h.expr s condition).bind fun c t hGrown _ => ?_
  refine (isTrue c).bindPlain fun answer u hNext => ?_
  split
  · exact .pure fun _ _ => trivial
  · refine bindPlain ?_ fun text x _ => (mark span).bindPlain fun _ _ _ => fail _
    cases message with
    | none => exact .pure fun _ _ => trivial
    | some e =>
        exact (h.expr u e).bind fun v x _ _ => renderValue v

/-- Declaring names global changes the names of a free directive and keeps what is guarded. -/
theorem declareGlobals (hKeeps : g.Keeps s) {env : Env} (hEnv : g.FreeEnv s env)
    (names : List Ident) :
    g.Advances s (names.foldl (fun t name => env.declareGlobal t name.name) s) := by
  induction names generalizing s with
  | nil => exact hKeeps.advances
  | cons name rest ih =>
      have hFirst := hKeeps.declareGlobal hEnv name.name
      exact hFirst.trans (ih hFirst.keeps (hEnv.mono hFirst.grown))

/-- Every statement is safe as soon as its parts are; the cases are the constructors of
statements. -/
theorem runStmt (h : g.SafeLevel ev) (st : Stmt) :
    g.Safe s (Eval.runStmt ev st) g.FreeFlow := by
  unfold Eval.runStmt
  refine (mark _).bindPlain fun _ t hStart => ?_
  cases st with
  | bind _ name value =>
      refine (h.expr t value).bind fun v u hGrown hv => ?_
      refine (define hv name.name).bindPlain fun _ _ _ => ?_
      exact .pure fun _ _ => trivial
  | assign span target value =>
      refine (h.expr t value).bind fun v u hGrown hv => ?_
      refine (mark span).bindPlain fun _ x hNext => ?_
      refine (assign h (hv.mono hNext) target).bindPlain
        fun _ _ _ => ?_
      exact .pure fun _ _ => trivial
  | function f =>
      dsimp only
      split
      · refine (makeFunction f).bind fun v u hGrown hv => ?_
        refine (define hv _).bindPlain fun _ _ _ => ?_
        exact .pure fun _ _ => trivial
      · exact .pure fun _ _ => trivial
  | branch b => exact runBranch h b
  | forEach _ item index iterable body =>
      refine (h.expr t iterable).bind fun v u hGrown hv => ?_
      refine (iterated hv).bind fun items x hNext hItems => ?_
      exact withLoop (runItems h item index body 0 hItems)
  | whileTrue span condition body =>
      exact withLoop (runRounds h span condition body ev.fuel)
  | leave _ => exact runLoopControl _ fun _ => trivial
  | next _ => exact runLoopControl _ fun _ => trivial
  | result _ value =>
      cases value with
      | none => exact .pure fun _ _ => freeValue_of_cell?_eq_none rfl
      | some e =>
          exact (h.expr t e).bind fun v u _ hv => .pure fun _ hLater => hv.mono hLater
  | check span condition message => exact runCheck h span condition message
  | globals _ names =>
      refine bindPlain (changeStore fun u env _ hKeeps hEnv => ?_) fun _ _ _ => ?_
      · exact declareGlobals hKeeps hEnv names
      · exact .pure fun _ _ => trivial
  | expr e =>
      refine (discard (h.expr t e)).bindPlain fun _ _ _ => ?_
      exact .pure fun _ _ => trivial

/-- The body of a function is safe, and the value it returns is free. -/
theorem runBody (h : g.SafeLevel ev) (stmts : List Stmt) :
    g.Safe s (Eval.runBody ev stmts) g.FreeValue := by
  unfold Eval.runBody
  split
  next first last _ =>
  refine (h.stmts first).bind fun flow t hGrown hFlow => ?_
  split
  · exact .pure fun _ hLater => FreeValue.mono hFlow hLater
  · cases last with
    | none => exact .pure fun _ _ => freeValue_of_cell?_eq_none rfl
    | some e =>
        refine (mark e.span).bindPlain fun _ u hNext => ?_
        exact h.expr u e

/-- By induction over the parameters: each is bound to a free argument. -/
theorem bindParams (label : String) (params : List Ident)
    {args : Args} (hArgs : g.FreeArgs s args) :
    g.Safe s (Eval.bindParams label params args) Plain := by
  induction params generalizing s args with
  | nil =>
      rw [Eval.bindParams]
      split
      · exact fail _
      · exact .pure fun _ _ => trivial
  | cons param rest ih =>
      rw [Eval.bindParams]
      cases hTake : args.take param.name with
      | none => exact fail _
      | some taken =>
          obtain ⟨hv, hRest⟩ := hArgs.take hTake
          refine (define hv param.name).bindPlain fun _ t hGrown => ?_
          exact ih (hRest.mono hGrown)

/-- A function that was written in free scopes runs in a new scope inside of them, and the caller's
scopes come back. -/
theorem callClosure (h : g.SafeLevel ev) {closure : Closure} {args : Args}
    (hClosure : g.FreeEnv s closure.env) (hArgs : g.FreeArgs s args) :
    g.Safe s (Eval.callClosure ev closure args) g.FreeValue := by
  unfold Eval.callClosure
  refine get.bind fun m t hGrown _ => ?_
  have hCall : ∀ u, t.Grown u → g.Safe u (Eval.inScopes closure.env do
      Eval.pushScope
      Eval.bindParams closure.function.label closure.function.params args
      Eval.withCall closure.unit (Eval.withFrame
        { site := .unit closure.unit, line := closure.function.span.start.line,
          label := some closure.function.label }
        (Eval.runBody ev closure.function.body.stmts))) g.FreeValue := by
    intro u hNext
    have hAll := hGrown.trans hNext
    refine inScopes (hClosure.mono hAll) (pushScope.bindPlain fun _ x hLater => ?_)
    refine (bindParams _ _ (hArgs.mono (hAll.trans hLater))).bindPlain fun _ y _ => ?_
    exact (runBody h _).withFrame _ |>.withCall _
  split
  · exact (fail _).bindPlain fun _ u hNext => hCall u hNext
  · exact hCall t (.refl t)

/-- Calling a free value with free arguments is safe: a free function was written in free scopes. -/
theorem callValue (h : g.SafeLevel ev) {function : Value} {args : Args}
    (hFunction : g.FreeValue s function) (hArgs : g.FreeArgs s args) :
    g.Safe s (Eval.callValue ev function args) g.FreeValue := by
  unfold Eval.callValue
  cases function with
  | function cell =>
      have hFound : g.Safe s (Eval.readStore (·.functions[cell]?)) fun t found =>
          ∀ closure ∈ found, g.FreeEnv t closure.env :=
        readStore fun t hGrown hKeeps closure hClosure =>
          hKeeps.closure (freeValue_function.1 (hFunction.mono hGrown)) hClosure
      refine hFound.bind fun found t hGrown hEnv => ?_
      cases found with
      | none => exact fail _
      | some closure => exact callClosure h (hEnv closure rfl) (hArgs.mono hGrown)
  | builtin b => exact withNative _ (native (SafeSteps.call b) hArgs)
  | _ => exact fail _

end Safe

end Guard

end Metagen
