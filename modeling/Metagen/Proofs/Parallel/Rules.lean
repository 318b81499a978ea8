import Metagen.Eval.Call
import Metagen.Eval.Statement
import Metagen.Proofs.Parallel.Operators

/-! The rules for expressions, statements and calls, side by side: they give paired results if the
evaluator of their parts does. -/

namespace Metagen

open Eval Script

namespace Pairing

variable {g : Pairing} {ev : Level} {v w : Value}

/-- Statements that end in the same way. -/
inductive Flows (g : Pairing) : Flow → Flow → Prop where
  | normal : Flows g .normal .normal
  | leave : Flows g .leave .leave
  | next : Flows g .next .next
  | result {v w : Value} (h : g.Values v w) : Flows g (.result v) (.result w)

/-- An evaluator of parts that gives paired results. -/
structure Levels (g : Pairing) (ev : Level) : Prop where
  expr : ∀ e, g.Lockstep g.Values (ev.expr e) (ev.expr e)
  stmt : ∀ s, g.Lockstep g.Flows (ev.stmt s) (ev.stmt s)
  call : ∀ v w args args', g.Values v w → g.Args args args' →
    g.Lockstep g.Values (ev.call v args) (ev.call w args')

/-- A step that calls a method of the generator. -/
def GeneratesAlike (g : Pairing) (generate : String → Eval.Args → EvalM Value) : Prop :=
  ∀ method args args', g.Args args args' →
    g.Lockstep g.Values (generate method args) (generate method args')

namespace Levels

theorem callWith (h : g.Levels ev) (hv : g.Values v w) {positional positional' : List Value}
    (hPositional : List.Forall₂ g.Values positional positional') :
    g.Lockstep g.Values (ev.callWith v positional) (ev.callWith w positional') :=
  (Lockstep.renderValue hv).bindSame fun _ => h.call v w _ _ hv ⟨hPositional, fields_empty⟩

/-- Statements follow each other one by one, and whatever ends them on one side ends them on the
other. -/
theorem stmts (h : g.Levels ev) (stmts : List Stmt) :
    g.Lockstep g.Flows (ev.stmts stmts) (ev.stmts stmts) := by
  induction stmts with
  | nil => exact .pure .normal
  | cons s rest ih =>
      refine (h.stmt s).bind fun flow flow' hFlows => ?_
      cases hFlows with
      | normal => exact ih
      | leave => exact .pure .leave
      | next => exact .pure .next
      | result hv => exact .pure (.result hv)

theorem block (h : g.Levels ev) (b : Block) :
    g.Lockstep g.Flows (ev.block b) (ev.block b) := (h.stmts b.stmts).inNewScope

end Levels

namespace Lockstep

/-- Arguments are evaluated in their order and are paired, positional ones and named ones. -/
theorem evalArgs (h : g.Levels ev) (callee callee' : String)
    (args : List (Option Ident × Expr)) :
    g.Lockstep g.Args (evalArgs ev callee args) (evalArgs ev callee' args) := by
  refine .foldlM ⟨.nil, fields_empty⟩ fun arg taken taken' hTaken => ?_
  refine (h.expr arg.2).bind fun v w hv => ?_
  split
  · exact .pure ⟨hTaken.positional, hTaken.named.insert _ hv⟩
  · exact .pure ⟨List.rel_append hTaken.positional (.cons hv .nil), hTaken.named⟩

theorem evalPart (h : g.Levels ev) (part : Script.Part Expr) :
    g.Lockstep Eq (evalPart ev part) (evalPart ev part) := by
  cases part with
  | text t => exact .pure rfl
  | hole e => exact (h.expr e).bind fun v w hv => renderValue hv

theorem makeFunction (f : Function) :
    g.Lockstep g.Values (makeFunction f) (makeFunction f) :=
  bindGet (fun _ _ hMachines => makeCell fun _ _ hStores =>
    hStores.newFunction ⟨rfl, hMachines.envs⟩) fun _ _ => rfl

/-- A method is called on paired values: one of the generator, a field of a record, or a builtin
one. -/
theorem callMethod (h : g.Levels ev) {generate : String → Eval.Args → EvalM Value}
    (hGenerate : g.GeneratesAlike generate) (hv : g.Values v w) (method : String)
    {args args' : Eval.Args} (hArgs : g.Args args args') :
    g.Lockstep g.Values (callMethod ev generate v method args)
      (callMethod ev generate w method args') := by
  have hBuiltin : g.Lockstep g.Values
      (Eval.onStore ((Native.callMethod v method).run' args))
      (Eval.onStore ((Native.callMethod w method).run' args')) :=
    native (NativeStep.callMethod hv method) hArgs
  cases hv with
  | generator => exact hGenerate method args args' hArgs
  | record hPair =>
      have hRead : g.Lockstep (Option.Rel g.Values)
          (Eval.readStore fun s => (s.recordAt _).get? method)
          (Eval.readStore fun s => (s.recordAt _).get? method) :=
        readStore fun _ _ hStores => (hStores.recordAt hPair).bound method
      refine hRead.bind ?_
      rintro _ _ (hMember | _)
      · exact h.call _ _ args args' hMember hArgs
      · exact hBuiltin
  | _ => exact hBuiltin

/-- A call of a function that may be named in some way in messages. -/
theorem callNamed (h : g.Levels ev) (span : Span) (callee : Expr)
    (args : List (Option Ident × Expr)) {naming : Value → EvalM String}
    (hNaming : ∀ v w, g.Values v w → g.Lockstep Eq (naming v) (naming w)) :
    g.Lockstep g.Values (do
      let function ← ev.expr callee
      let name ← naming function
      let args ← Eval.evalArgs ev name args
      Eval.mark span
      ev.call function args) (do
      let function ← ev.expr callee
      let name ← naming function
      let args ← Eval.evalArgs ev name args
      Eval.mark span
      ev.call function args) := by
  refine (h.expr callee).bind fun v w hv => (hNaming v w hv).bindSame fun name => ?_
  refine (evalArgs h name name args).bind fun args args' hArgs => ?_
  exact (mark span span).bindSame fun _ => h.call v w args args' hv hArgs

/-- A call evaluates what is called and its arguments first, and is marked where it stands, on both
sides. -/
theorem evalCall (h : g.Levels ev) {generate : String → Eval.Args → EvalM Value}
    (hGenerate : g.GeneratesAlike generate) (span : Span) (callee : Expr)
    (args : List (Option Ident × Expr)) :
    g.Lockstep g.Values (evalCall ev generate span callee args)
      (evalCall ev generate span callee args) := by
  unfold Eval.evalCall
  cases callee with
  | field _ object field =>
      refine (h.expr object).bind fun v w hv => ?_
      refine (evalArgs h _ _ args).bind fun args args' hArgs => ?_
      exact (mark span span).bindSame fun _ => callMethod h hGenerate hv _ hArgs
  | name _ name => exact callNamed h span _ args fun _ _ _ => .pure rfl
  | _ => exact callNamed h span _ args fun _ _ hv => renderValue hv

/-- The second operand is evaluated on both sides or on neither, since the first ones are true
together. -/
theorem evalBinary (h : g.Levels ev) (span : Span) (op : BinaryOp)
    (left right : Expr) :
    g.Lockstep g.Values (evalBinary ev span op left right)
      (evalBinary ev span op left right) := by
  have hRight := h.expr right
  have hOperator : ∀ op, ∀ v w, g.Values v w → g.Lockstep g.Values (do
      let b ← ev.expr right
      Eval.mark span
      Eval.onStore (applyBinary op v b)) (do
      let b ← ev.expr right
      Eval.mark span
      Eval.onStore (applyBinary op w b)) := fun op v w hv =>
    hRight.bind fun b b' hb => (mark span span).bindSame fun _ =>
      onStore (Operations.applyBinary op hv hb)
  unfold Eval.evalBinary
  refine (h.expr left).bind fun v w hv => ?_
  cases op with
  | and => exact (isTrue hv).bindSame fun _ => .ite hRight (.pure hv)
  | or => exact (isTrue hv).bindSame fun _ => .ite (.pure hv) hRight
  | _ => exact hOperator _ v w hv

/-- Every expression gives paired values as soon as its parts do; the cases are the constructors of
expressions. -/
theorem evalExpr (h : g.Levels ev) {generate : String → Eval.Args → EvalM Value}
    (hGenerate : g.GeneratesAlike generate) (e : Expr) :
    g.Lockstep g.Values (evalExpr ev generate e) (evalExpr ev generate e) := by
  have hPart : ∀ e, g.Lockstep g.Values (ev.expr e) (ev.expr e) :=
    fun e => h.expr e
  unfold Eval.evalExpr
  refine (mark _ _).bindSame fun _ => ?_
  cases e with
  | int _ n => exact .pure (.int n)
  | float _ x => exact .pure (.float x)
  | text _ t => exact .pure (.text t)
  | interpolation _ parts =>
      have hParts := Follows.mapMEach (fun part => evalPart h part) parts
      refine (hParts.imp fun _ _ => forall₂_eq_of_forall₂).bindSame fun _ => ?_
      exact .pure (.text _)
  | bool _ b => exact .pure (.bool b)
  | nil _ => exact .pure .nil
  | list _ items =>
      refine (Follows.mapMEach hPart items).bind fun values values' hValues => ?_
      exact makeCell fun _ _ hStores => hStores.newList hValues
  | record _ fields =>
      refine Follows.bind (Q := List.Forall₂ g.Entry) (Follows.mapMEach (fun field => ?_) fields)
        fun entries entries' hEntries => ?_
      · exact (hPart field.2).bind fun v w hv => .pure ⟨rfl, hv⟩
      · exact makeCell fun _ _ hStores => hStores.newRecord (fields_ofList hEntries)
  | name _ name =>
      exact bindGet (fun _ _ hMachines => onStore (Operations.lookUp hMachines.envs name))
        fun _ _ => rfl
  | call span callee args => exact evalCall h hGenerate span callee args
  | field span object field =>
      refine (hPart object).bind fun v w hv => (mark span span).bindSame fun _ => ?_
      exact onStore (Operations.fieldOf hv field.name)
  | index span object index =>
      refine (hPart object).bind fun v w hv => (hPart index).bind fun i i' hi => ?_
      exact (mark span span).bindSame fun _ => onStore (Operations.itemOf hv hi)
  | binary span op left right => exact evalBinary h span op left right
  | unary _ op operand =>
      refine (hPart operand).bind fun v w hv => ?_
      cases op with
      | not => exact (isTrue hv).bindSame fun _ => .pure (.bool _)
      | neg => exact onStore (Operations.negate hv)
  | lambda f => exact makeFunction f
  | paren _ inner => exact hPart inner

/-- Assigning to a name that is bound changes both stores at cells that stand for each other. -/
theorem assignName (hv : g.Values v w) (span : Span) (name : String) :
    g.Lockstep Eq (assign ev v (.name span name)) (assign ev w (.name span name)) := by
  refine aside fun m n hMachines done m' hRun => ?_
  rw [assign_name] at hRun
  simp only [assign_name]
  -- What is written was found in the store that it replaces.
  rcases rel_cases (hMachines.stores.envSet? hMachines.envs name hv) with
    ⟨hx, hy⟩ | ⟨s, t, hx, hy, hSet⟩
  · rw [hx] at hRun
    cases hRun
  · rw [hx] at hRun
    cases hRun
    simp only [hy]
    exact ⟨(), { n with store := t }, fun _ => rfl, rfl, { hMachines with stores := hSet }, trivial⟩

/-- Assignments follow each other; the cases are those of what can be assigned to, and anything else
is refused. -/
theorem assign (h : g.Levels ev) (hv : g.Values v w) (target : Expr) :
    g.Lockstep Eq (assign ev v target) (assign ev w target) := by
  induction target using Eval.assign.induct with
  | case1 span name => exact assignName hv span name
  | case2 span object field =>
      unfold Eval.assign
      refine (h.expr object).bind fun o o' ho => ?_
      exact onStore (Operations.setField ho field.name hv)
  | case3 span object index =>
      unfold Eval.assign
      refine (h.expr object).bind fun o o' ho => ?_
      refine (h.expr index).bind fun i i' hi => ?_
      exact onStore (Operations.setItem ho hi hv)
  | case4 span inner ih =>
      unfold Eval.assign
      exact ih
  | case5 other hName hField hIndex hParen =>
      rw [assign_of_ne hName hField hIndex hParen, assign_of_ne hName hField hIndex hParen]
      exact fail _

/-- The same branch is taken on both sides, as paired conditions are true together. -/
theorem runBranch (h : g.Levels ev) (b : Branch) :
    g.Lockstep g.Flows (runBranch ev b) (runBranch ev b) := by
  induction b using Eval.runBranch.induct with
  | case1 span condition body otherwise ih =>
      unfold Eval.runBranch
      refine (h.expr condition).bind fun c c' hc => ?_
      refine (isTrue hc).bindSame fun answer => .ite (h.block body) ?_
      cases otherwise with
      | nothing => exact .pure .normal
      | block body => exact h.block body
      | branch next => exact (mark next.span next.span).bindSame fun _ => ih

/-- A loop runs through paired values: the items of paired lists, the characters of one text, or the
same names. -/
theorem iterated (hv : g.Values v w) :
    g.Lockstep (List.Forall₂ g.Values) (iterated v) (iterated w) := by
  have hPlain : ∀ {vs : List Value}, (∀ v ∈ vs, v.cell? = none) →
      List.Forall₂ g.Values vs vs := fun h =>
    List.forall₂_same.2 fun v hv => values_of_plain (h v hv)
  cases hv with
  | @list i j hPair =>
      have hItems : g.Lockstep (List.Forall₂ g.Values)
          (Eval.readStore fun s => (s.listAt i).toList)
          (Eval.readStore fun s => (s.listAt j).toList) :=
        readStore fun _ _ hStores => hStores.listAt hPair
      exact hItems
  | text t => exact .pure (hPlain (by simp [Value.cell?]))
  | @record i j hPair =>
      have hNames : g.Lockstep (List.Forall₂ g.Values)
          (Eval.readStore fun s => (s.recordAt i).names.map Value.text)
          (Eval.readStore fun s => (s.recordAt j).names.map Value.text) := by
        refine readStore fun s t hStores => ?_
        rw [(hStores.recordAt hPair).names_eq]
        exact hPlain (by simp [Value.cell?])
      exact hNames
  | _ => exact fail _

/-- A loop goes on or ends as its body says. -/
theorem loopBody {first second : EvalM Flow} {after after' : Flow → EvalM Flow}
    (h : g.Lockstep g.Flows first second)
    (hNormal : g.Lockstep g.Flows (after .normal) (after' .normal))
    (hNext : g.Lockstep g.Flows (after .next) (after' .next))
    (hLeave : after .leave = Pure.pure .normal) (hLeave' : after' .leave = Pure.pure .normal)
    (hResult : ∀ v, after (.result v) = Pure.pure (.result v))
    (hResult' : ∀ v, after' (.result v) = Pure.pure (.result v)) :
    g.Lockstep g.Flows (first >>= after) (second >>= after') := by
  refine h.bind fun flow flow' hFlows => ?_
  cases hFlows with
  | normal => exact hNormal
  | next => exact hNext
  | leave =>
      rw [hLeave, hLeave']
      exact .pure .normal
  | result hv =>
      rw [hResult, hResult']
      exact .pure (.result hv)

/-- A round of a loop runs in a new scope on both sides, with paired items and the same number. -/
theorem runItem (h : g.Levels ev) (item : Ident) (index : Option Ident) (body : Block) (i : Nat)
    (hv : g.Values v w) :
    g.Lockstep g.Flows (runItem ev item index body i v) (runItem ev item index body i w) := by
  refine inNewScope ((define hv item.name).bindSame fun _ => ?_)
  cases index with
  | none => exact h.stmts body.stmts
  | some index => exact (define (.int _) index.name).bindSame fun _ => h.stmts body.stmts

/-- By induction over the items: rounds of both loops go on, leave the loop or return in the same
way. -/
theorem runItems (h : g.Levels ev) (item : Ident) (index : Option Ident)
    (body : Block) (i : Nat) {items items' : List Value}
    (hItems : List.Forall₂ g.Values items items') :
    g.Lockstep g.Flows (runItems ev item index body i items)
      (runItems ev item index body i items') := by
  induction hItems generalizing i with
  | nil => exact .pure .normal
  | cons hv _ ih =>
      rw [Eval.runItems, Eval.runItems]
      exact loopBody (runItem h item index body i hv) (ih _) (ih _) (by rfl) (by rfl)
        (by exact fun _ => rfl) (by exact fun _ => rfl)

/-- By induction on the bound of rounds: both loops run the same number of rounds. -/
theorem runRounds (h : g.Levels ev) (span : Span) (condition : Expr)
    (body : Block) (fuel : Nat) :
    g.Lockstep g.Flows (runRounds ev span condition body fuel)
      (runRounds ev span condition body fuel) := by
  induction fuel with
  | zero => exact .throw _
  | succ fuel ih =>
      rw [Eval.runRounds]
      refine (mark span span).bindSame fun _ => ?_
      refine (h.expr condition).bind fun c c' hc => ?_
      refine (isTrue hc).bindSame fun answer => .ite ?_ (.pure .normal)
      exact loopBody (h.block body) ih ih (by rfl) (by rfl) (by exact fun _ => rfl)
        (by exact fun _ => rfl)

theorem runLoopControl (word : LoopWord) {flow : Flow} (hFlow : g.Flows flow flow) :
    g.Lockstep g.Flows (runLoopControl word flow) (runLoopControl word flow) := by
  refine bindGet (fun m n hMachines => ?_) fun _ _ => rfl
  rw [hMachines.loops]
  exact .ite (fail _) (.pure hFlow)

/-- An assertion that holds on one side holds on the other, as paired conditions are true
together. -/
theorem runCheck (h : g.Levels ev) (span : Span) (condition : Expr)
    (message : Option Expr) :
    g.Lockstep g.Flows (runCheck ev span condition message)
      (runCheck ev span condition message) := by
  unfold Eval.runCheck
  refine (h.expr condition).bind fun c c' hc => ?_
  refine (isTrue hc).bindSame fun answer => .ite (.pure .normal) ?_
  refine Follows.bindSame ?_ fun text => (mark span span).bindSame fun _ => fail _
  cases message with
  | none => exact .pure rfl
  | some e => exact (h.expr e).bind fun v w hv => renderValue hv

theorem declareGlobals (names : List Ident) :
    g.Lockstep Eq
      (Eval.changeStore fun env s => names.foldl (env.declareGlobal · ·.name) s)
      (Eval.changeStore fun env s => names.foldl (env.declareGlobal · ·.name) s) := by
  refine changeStore fun env env' s t hEnv hStores => ?_
  have hNames := hStores.declareGlobals hEnv (names.map (·.name))
  rwa [List.foldl_map, List.foldl_map] at hNames

/-- Statements end in the same way as soon as their parts do; the cases are the constructors of
statements. -/
theorem runStmt (h : g.Levels ev) (s : Stmt) :
    g.Lockstep g.Flows (runStmt ev s) (runStmt ev s) := by
  have hPart : ∀ e, g.Lockstep g.Values (ev.expr e) (ev.expr e) :=
    fun e => h.expr e
  unfold Eval.runStmt
  refine (mark _ _).bindSame fun _ => ?_
  cases s with
  | bind _ name value =>
      refine (hPart value).bind fun v w hv => ?_
      exact (define hv _).bindSame fun _ => .pure .normal
  | assign span target value =>
      refine (hPart value).bind fun v w hv => (mark span span).bindSame fun _ => ?_
      exact (assign h hv target).bindSame fun _ => .pure .normal
  | function f =>
      dsimp only
      split
      · refine (makeFunction f).bind fun v w hv => ?_
        exact (define hv _).bindSame fun _ => .pure .normal
      · exact .pure .normal
  | branch b => exact runBranch h b
  | forEach _ item index iterable body =>
      refine (hPart iterable).bind fun v w hv => (iterated hv).bind fun items items' hItems => ?_
      exact withLoop (runItems h item index body 0 hItems)
  | whileTrue span condition body =>
      exact withLoop (runRounds h span condition body ev.fuel)
  | leave _ => exact runLoopControl _ .leave
  | next _ => exact runLoopControl _ .next
  | result _ value =>
      cases value with
      | none => exact .pure (.result .nil)
      | some e => exact (hPart e).bind fun v w hv => .pure (.result hv)
  | check span condition message => exact runCheck h span condition message
  | globals _ names => exact (declareGlobals names).bindSame fun _ => .pure .normal
  | expr e => exact (hPart e).discard.bindSame fun _ => .pure .normal

/-- The body of a function returns paired values, those of a return statement or of the expression
that stands last. -/
theorem runBody (h : g.Levels ev) (stmts : List Stmt) :
    g.Lockstep g.Values (runBody ev stmts) (runBody ev stmts) := by
  unfold Eval.runBody
  split
  next first last hSplit =>
  clear hSplit
  refine (h.stmts first).bind fun flow flow' hFlows => ?_
  cases hFlows with
  | result hv => exact .pure hv
  | _ =>
      cases last with
      | none => exact .pure .nil
      | some e => exact (mark _ _).bindSame fun _ => h.expr e

/-- By induction over the parameters: each is bound to paired arguments, and the same arguments are
left for the others. -/
theorem bindParams (label : String) (params : List Ident)
    {args args' : Eval.Args} (hArgs : g.Args args args') :
    g.Lockstep Eq (bindParams label params args) (bindParams label params args') := by
  induction params generalizing args args' with
  | nil =>
      rw [Eval.bindParams, Eval.bindParams]
      cases hLeft : args.leftOver? with
      | some fault => exact fail _
      | none =>
          rw [hArgs.leftOver?_eq_none hLeft]
          exact .pure rfl
  | cons param rest ih =>
      rw [Eval.bindParams, Eval.bindParams]
      rcases rel_cases (hArgs.take param.name) with ⟨hx, hy⟩ | ⟨x, y, hx, hy, hv, hRest⟩
      · rw [hx, hy]
        exact fail _
      · rw [hx, hy]
        exact (define hv _).bindSame fun _ => ih hRest

/-- Functions that are written alike are called alike, since the scopes they were written in are
paired. -/
theorem callClosure (h : g.Levels ev) {closure closure' : Closure}
    (hClosures : g.Closures closure closure') {args args' : Eval.Args}
    (hArgs : g.Args args args') :
    g.Lockstep g.Values (callClosure ev closure args) (callClosure ev closure' args') := by
  unfold Eval.callClosure
  rw [hClosures.function]
  refine bindGet (fun m n hMachines => ?_) fun _ _ => rfl
  rw [hMachines.calls]
  dsimp only
  split
  · exact failing _
  · refine inScopes hClosures.env (pushScope.bindSame fun _ => ?_)
    refine (bindParams _ _ hArgs).bindSame fun _ => ?_
    exact withCall _ _ (withFrame _ _ (runBody h _))

/-- Calling paired values gives paired values, whether they are functions of scripts or builtin
ones. -/
theorem callValue (h : g.Levels ev) (hv : g.Values v w) {args args' : Eval.Args}
    (hArgs : g.Args args args') :
    g.Lockstep g.Values (callValue ev v args) (callValue ev w args') := by
  cases hv with
  | function hPair =>
      have hRead : g.Lockstep (Option.Rel g.Closures) (Eval.readStore (·.functions[_]?))
          (Eval.readStore (·.functions[_]?)) :=
        readStore fun _ _ hStores => hStores.functions.related _ _ hPair
      refine hRead.bind ?_
      rintro _ _ (hClosures | _)
      · exact callClosure h hClosures hArgs
      · exact fail _
  | builtin b => exact withNative _ _ (native (NativeStep.call b) hArgs)
  | _ => exact fail _

end Lockstep

end Pairing

end Metagen
