import Metagen.Proofs.Eval.Surroundings
import Metagen.Proofs.Value.Cells

/-! Where parameters and the variables of loops are bound. A call, and each round of a loop, opens a
scope of its own and binds its names there, so that nothing changes that was there before: not the
names of the directive, and not the parameters of a call of the same function that is still
running. Names that were declared global are the exception. They are bound among the names of the
directive even here. -/

namespace Metagen

namespace Env

/-- A store after some names have been bound in a scope that was opened inside others. -/
structure Binds (env : Env) (names : List String) (s t : Store) : Prop where
  grown : s.Grown t
  /-- One scope is new, and follows those that there were. -/
  size : t.scopes.size = s.scopes.size + 1
  /-- The new scope holds the names that were not declared global. -/
  own : ∀ name, name ∈ (t.scopeAt s.scopes.size).names ↔
    name ∈ names ∧ env.isGlobal s name = false
  /-- What was there is as it was, except perhaps for the names of the directive. -/
  others : ∀ x, s.HasCell x → x ≠ .names env.namespaceCell → s.Agrees t x
  /-- Among those only names are bound that were declared global. -/
  spilled : ∀ name, env.namespaceGet? t name ≠ env.namespaceGet? s name →
    name ∈ names ∧ env.isGlobal s name = true
  /-- No name comes to be global. -/
  declared : ∀ name, env.isGlobal t name = env.isGlobal s name
  /-- Without declared names, all that was there is as it was. -/
  untouched : (∀ name ∈ names, env.isGlobal s name = false) → ∀ x, s.HasCell x → s.Agrees t x

variable {env : Env} {names : List String} {s t : Store}

/-- Opening the scope binds nothing. -/
theorem binds_push (env : Env) (s : Store) : env.Binds [] s (env.push s).2 := by
  have hSame : ∀ x, s.HasCell x → s.Agrees (env.push s).2 x := by
    intro x hx
    apply Store.agrees_newScope
    rintro rfl
    exact Nat.lt_irrefl _ hx
  refine ⟨{ Store.Grown.refl s with scopes := ?_ }, Array.size_push _, ?_,
    fun x hx _ => hSame x hx, ?_, fun _ => rfl, fun _ => hSame⟩
  · simp [push, Store.newScope]
  · intro name
    have hEmpty : (env.push s).2.scopeAt s.scopes.size = {} := getD_push_self s.scopes {} {}
    simp [hEmpty, Bindings.names, entryNames]
  · intro name hName
    exact absurd rfl hName

theorem namespaceAt_modifyNamespace (s : Store) (cell : Nat) (change : Namespace → Namespace) :
    (s.modifyNamespace cell change).namespaceAt cell =
      (s.namespaces[cell]?.map change).getD {} := by
  simp [Store.namespaceAt, Store.modifyNamespace, Array.getElem?_modify]

/-- A declared name is bound among the names of the directive, and nowhere else. -/
theorem Binds.defineGlobal (h : env.Binds names s t) {name : String}
    (hGlobal : env.isGlobal s name = true) (v : Value) :
    env.Binds (name :: names) s (env.defineNamespace t name v) := by
  have hDeclared : ∀ other,
      env.isGlobal (env.defineNamespace t name v) other = env.isGlobal t other := by
    intro other
    rw [isGlobal, defineNamespace, namespaceAt_modifyNamespace, isGlobal, Store.namespaceAt]
    cases t.namespaces[env.namespaceCell]? <;> rfl
  have hOther : ∀ other, other ≠ name →
      env.namespaceGet? (env.defineNamespace t name v) other = env.namespaceGet? t other := by
    intro other hNe
    rw [namespaceGet?, defineNamespace, namespaceAt_modifyNamespace, namespaceGet?,
      Store.namespaceAt]
    cases t.namespaces[env.namespaceCell]? with
    | none => rfl
    | some found => simp [hNe]
  refine ⟨{ h.grown with namespaces := ?_ }, h.size, fun other => ?_, fun x hx hNames => ?_,
    fun other hChanged => ?_, fun other => ?_, fun hNone => ?_⟩
  · rw [size_defineNamespace]
    exact h.grown.namespaces
  · rw [show (env.defineNamespace t name v).scopeAt = t.scopeAt from rfl, h.own, List.mem_cons]
    constructor
    · rintro ⟨hMem, hLocal⟩
      exact ⟨.inr hMem, hLocal⟩
    · rintro ⟨rfl | hMem, hLocal⟩
      · rw [hGlobal] at hLocal
        cases hLocal
      · exact ⟨hMem, hLocal⟩
  · exact (h.others x hx hNames).trans (Store.agrees_modifyNamespace _ hNames)
  · by_cases hNe : other = name
    · subst hNe
      exact ⟨List.mem_cons_self, hGlobal⟩
    · rw [hOther other hNe] at hChanged
      obtain ⟨hMem, hSpilled⟩ := h.spilled other hChanged
      exact ⟨List.mem_cons_of_mem _ hMem, hSpilled⟩
  · rw [hDeclared, h.declared]
  · rw [hNone name List.mem_cons_self] at hGlobal
    cases hGlobal

/-- Any other name is bound in the new scope. -/
theorem Binds.defineLocal (h : env.Binds names s t) {name : String}
    (hLocal : env.isGlobal s name = false) (v : Value) :
    env.Binds (name :: names) s (t.modifyScope s.scopes.size (·.insert name v)) := by
  have hMade : s.scopes.size < t.scopes.size := by
    rw [h.size]
    exact Nat.lt_succ_self _
  have hSame : ∀ x, s.HasCell x → t.Agrees (t.modifyScope s.scopes.size (·.insert name v)) x := by
    intro x hx
    apply Store.agrees_modifyScope
    rintro rfl
    exact Nat.lt_irrefl _ hx
  have hSize : (t.modifyScope s.scopes.size (·.insert name v)).scopes.size = t.scopes.size :=
    Array.size_modify
  refine ⟨{ h.grown with scopes := ?_ }, hSize.trans h.size, fun other => ?_,
    fun x hx hNames => ?_, fun other hChanged => ?_, h.declared, fun hNone x hx => ?_⟩
  · rw [hSize]
    exact h.grown.scopes
  · rw [Store.scopeAt_modifyScope hMade, Bindings.names_insert, List.mem_cons]
    have hOwn := h.own other
    by_cases hNe : other = name
    · subst hNe
      split
      · simp_all
      · simp [hLocal]
    · split
      · simp [hOwn, hNe]
      · simp [hOwn, hNe]
  · exact (h.others x hx hNames).trans (hSame x hx)
  · obtain ⟨hMem, hSpilled⟩ := h.spilled other hChanged
    exact ⟨List.mem_cons_of_mem _ hMem, hSpilled⟩
  · exact (h.untouched (fun n hn => hNone n (List.mem_cons_of_mem _ hn)) x hx).trans (hSame x hx)

/-- One more name is bound. -/
theorem Binds.define (h : env.Binds names s t) (name : String) (v : Value) :
    env.Binds (name :: names) s ((env.push s).1.define t name v) := by
  have hDefine : (env.push s).1.define t name v =
      if env.isGlobal t name then env.defineNamespace t name v
      else t.modifyScope s.scopes.size (·.insert name v) := rfl
  rw [hDefine, h.declared]
  split
  · next hGlobal => exact h.defineGlobal hGlobal v
  · next hLocal => exact h.defineLocal (by simpa using hLocal) v

/-- Only which names are bound matters, not in which order. -/
theorem Binds.congr {others : List String} (h : env.Binds names s t)
    (hSame : ∀ name, name ∈ names ↔ name ∈ others) : env.Binds others s t where
  grown := h.grown
  size := h.size
  own := by simpa only [← hSame] using h.own
  others := h.others
  spilled := by simpa only [← hSame] using h.spilled
  declared := h.declared
  untouched hNone := h.untouched fun name hName => hNone name ((hSame name).1 hName)

end Env

namespace Eval

open Script

variable {env : Env} {names : List String} {m m' : Machine}

/-- A machine that has opened a scope inside others, has bound some names in it, and has done
nothing else. -/
structure Machine.Binds (m : Machine) (env : Env) (names : List String) (m' : Machine) : Prop where
  store : env.Binds names m.store m'.store
  same : m' = { m with store := m'.store, env := (env.push m.store).1 }

/-- All that was there is as it was: every scope, the names of every directive, and every list,
record and function. -/
def Machine.Untouched (m m' : Machine) : Prop :=
  ∀ x, m.store.HasCell x → m.store.Agrees m'.store x

namespace Machine.Binds

theorem start (m : Machine) (env : Env) :
    m.Binds env [] (m.pushed env) :=
  ⟨env.binds_push m.store, rfl⟩

theorem env_eq (h : m.Binds env names m') : m'.env = (env.push m.store).1 := by
  rw [h.same]

/-- Binding one more name adds it to those that were bound in the scopes; all else is as it was. -/
theorem define (h : m.Binds env names m') (name : String) (v : Value) :
    m.Binds env (name :: names) { m' with store := m'.env.define m'.store name v } := by
  constructor
  · rw [h.env_eq]
    exact h.store.define name v
  · rw [h.same]

theorem congr {others : List String} (h : m.Binds env names m')
    (hSame : ∀ name, name ∈ names ↔ name ∈ others) : m.Binds env others m' :=
  ⟨h.store.congr hSame, h.same⟩

theorem untouched (h : m.Binds env names m')
    (hNone : ∀ name ∈ names, env.isGlobal m.store name = false) : m.Untouched m' :=
  h.store.untouched hNone

end Machine.Binds

/-- Parameters are bound one by one, until one of them has no argument or an argument is left. -/
theorem bindParams_binds (h : m.Binds env names m') (label : String) (params : List Ident)
    (args : Args) :
    (∃ last, bindParams label params args m' = .ok () last ∧
      m.Binds env (params.reverse.map (·.name) ++ names) last) ∨
    ∃ fault bound last, bindParams label params args m' = .error (.failed { fault }) last ∧
      (∀ name ∈ bound, name ∈ params.map (·.name) ∨ name ∈ names) ∧ m.Binds env bound last := by
  induction params generalizing names m' args with
  | nil =>
      rw [bindParams]
      cases args.leftOver? with
      | none => exact .inl ⟨m', rfl, h⟩
      | some fault => exact .inr ⟨fault, names, m', rfl, fun _ hName => .inr hName, h⟩
  | cons param rest ih =>
      rw [bindParams]
      cases args.take param.name with
      | none => exact .inr ⟨_, names, m', rfl, fun _ hName => .inr hName, h⟩
      | some taken =>
          rcases ih (h.define param.name taken.1) taken.2 with
            ⟨last, hRun, hBinds⟩ | ⟨fault, bound, last, hRun, hBound, hBinds⟩
          · refine .inl ⟨last, hRun, ?_⟩
            simpa using hBinds
          · refine .inr ⟨fault, bound, last, hRun, fun name hName => ?_, hBinds⟩
            simpa [or_assoc, or_left_comm] using hBound name hName

def paramNames (closure : Closure) : List String := closure.function.params.map (·.name)

/-- The body of a function, run inside its frame once the parameters are bound. Afterwards the
scopes of the caller are open again. -/
def callBody (ev : Level) (closure : Closure) (caller : Env) : EvalM Value :=
  leaving ({ · with env := caller }) (withCall closure.unit
    (withFrame (frameOf closure) (runBody ev closure.function.body.stmts)))

/-- Below the limit of calls, the parameters are bound in a new scope, and then the body runs. -/
theorem callClosure_of_lt (ev : Level) {closure : Closure} {args : Args}
    (hCalls : m.calls < maxCallDepth) : callClosure ev closure args m =
      match bindParams closure.function.label closure.function.params args
        (m.pushed closure.env) with
      | .ok () m' => callBody ev closure m.env m'
      | .error stop m' => .error stop { m' with env := m.env } := by
  rw [callClosure_eq, if_neg (Nat.not_le.2 hCalls), enterWith_eq]
  rfl

/-- A call is refused at once, or binds parameters: some of them if the arguments are refused, and
all of them if the body runs. -/
theorem callClosure_binds (ev : Level) (m : Machine) (closure : Closure) (args : Args) :
    (maxCallDepth ≤ m.calls ∧
      callClosure ev closure args m = .error (.failed { fault := .callDepth }) m) ∨
    ∃ bound m', m.Binds closure.env bound m' ∧
      (((∀ name ∈ bound, name ∈ paramNames closure) ∧ ∃ fault,
          callClosure ev closure args m = .error (.failed { fault }) { m' with env := m.env }) ∨
        bound = paramNames closure ∧
          callClosure ev closure args m = callBody ev closure m.env m') := by
  by_cases hDeep : maxCallDepth ≤ m.calls
  · refine .inl ⟨hDeep, ?_⟩
    rw [callClosure_eq, if_pos hDeep]
  · rw [callClosure_of_lt ev (Nat.not_le.1 hDeep)]
    rcases bindParams_binds (.start m closure.env) closure.function.label closure.function.params
      args with ⟨last, hRun, hBinds⟩ | ⟨fault, bound, last, hRun, hBound, hBinds⟩
    · rw [hRun]
      refine .inr ⟨paramNames closure, last, hBinds.congr fun name => ?_, .inr ⟨rfl, rfl⟩⟩
      simp [paramNames]
    · rw [hRun]
      refine .inr ⟨bound, last, hBinds, .inl ⟨fun name hName => ?_, fault, rfl⟩⟩
      exact (hBound name hName).resolve_right List.not_mem_nil

def loopNames (item : Ident) (index : Option Ident) : List String :=
  item.name :: (index.map (·.name)).toList

/-- What follows a round of a loop: the other rounds, or the end of the loop. -/
structure ContinuesLoop (others : EvalM Flow) (after : Flow → EvalM Flow) : Prop where
  normal : after .normal = others
  next : after .next = others
  leave : after .leave = pure .normal
  result : ∀ v, after (.result v) = pure (.result v)

/-- The statements of a round, and then the scope of the round is left. -/
def roundBody (ev : Level) (body : Block) : EvalM Flow :=
  leaving (fun m => { m with env := m.env.pop }) (ev.stmts body.stmts)

/-- A round of a loop binds the item, and its index if that has a name. -/
theorem runItems_binds (ev : Level) (m : Machine) (item : Ident) (index : Option Ident)
    (body : Block) (i : Nat) (v : Value) (rest : List Value) :
    ∃ m' after, m.Binds m.env (loopNames item index) m' ∧
      runItems ev item index body i (v :: rest) m = (roundBody ev body >>= after) m' ∧
      ContinuesLoop (runItems ev item index body (i + 1) rest) after := by
  have hItem := (Machine.Binds.start m m.env).define item.name v
  rw [runItems]
  cases index with
  | none => exact ⟨_, _, hItem, rfl, ⟨rfl, rfl, rfl, fun _ => rfl⟩⟩
  | some index =>
      refine ⟨_, _, ?_, rfl, ⟨rfl, rfl, rfl, fun _ => rfl⟩⟩
      refine (hItem.define index.name (.int (.ofNat i))).congr fun name => ?_
      simp [loopNames, or_comm]

variable {ev : Level}

/-- From the machine on, the action leaves a cell as it is. -/
def Spares {α : Type} (x : StoreCell) (action : EvalM α) (m : Machine) : Prop :=
  (endState (action m)).store.HasCell x ∧ m.store.Agrees (endState (action m)).store x

namespace Spares

variable {α β : Type} {x : StoreCell}

theorem pure (a : α) (hx : m.store.HasCell x) : Spares x (pure a) m := ⟨hx, .refl _ _⟩

theorem fail (fault : Fault) (hx : m.store.HasCell x) : Spares x (fail fault : EvalM α) m :=
  ⟨hx, .refl _ _⟩

/-- Steps one behind the other leave a cell as it is if the first does and the second does from
wherever the first has come to. -/
theorem bind {first : EvalM α} {second : α → EvalM β} (h : Spares x first m)
    (hNext : ∀ a m', first m = .ok a m' → m'.store.HasCell x → m.store.Agrees m'.store x →
      Spares x (second a) m') : Spares x (first >>= second) m := by
  change Spares x (EStateM.bind first second) m
  rw [Spares, EStateM.bind]
  rw [Spares] at h
  cases hRun : first m with
  | error stop m' =>
      rw [hRun] at h
      exact h
  | ok a m' =>
      rw [hRun] at h
      obtain ⟨hHas, hSame⟩ := h
      obtain ⟨hEnd, hRest⟩ := hNext a m' hRun hHas hSame
      exact ⟨hEnd, hSame.trans hRest⟩

/-- What is done after names have been bound. -/
theorem after {action : EvalM α} (h : Spares x action m') (hBinds : m.Binds env names m')
    (hx : m.store.HasCell x)
    (hNone : x = .names env.namespaceCell → ∀ name ∈ names, env.isGlobal m.store name = false)
    {whole : EvalM α} (hRun : whole m = action m') : Spares x whole m := by
  have hSame : m.store.Agrees m'.store x := by
    by_cases hNames : x = .names env.namespaceCell
    · exact hBinds.untouched (hNone hNames) x hx
    · exact hBinds.store.others x hx hNames
  rw [Spares, hRun]
  exact ⟨h.1, hSame.trans h.2⟩

end Spares

/-- Leaving scopes changes no cell. -/
theorem Spares.leaving {α : Type} {x : StoreCell} {action : EvalM α} {leave : Machine → Machine}
    (h : Spares x action m) (hStore : ∀ m', (leave m').store = m'.store) :
    Spares x (Eval.leaving leave action) m := by
  have hEnd : (endState (Eval.leaving leave action m)).store = (endState (action m)).store := by
    rw [Eval.leaving]
    cases action m with
    | ok a m' => exact hStore m'
    | error stop m' => exact hStore m'
  rw [Spares, hEnd]
  exact h

/-- Statements leave those scopes open that they find open. -/
def Level.KeepsScopes (ev : Level) : Prop :=
  ∀ stmts m, (endState (ev.stmts stmts m)).env = m.env

theorem keepsScopes_level (fuel : Nat) : (level fuel).KeepsScopes := by
  intro stmts m
  have hMirrors : Mirrors .exact m.around _ ((level fuel).stmts stmts) _ :=
    (levelsMirror_self fuel).stmts trivial stmts
  exact congrArg Surroundings.env (hMirrors m rfl).endState_around

/-- After a round the scopes are open that were open before it. -/
theorem Level.KeepsScopes.roundBody (h : ev.KeepsScopes) {body : Block} {flow : Flow}
    {last : Machine} (hBinds : m.Binds m.env names m')
    (hRun : roundBody ev body m' = .ok flow last) : last.env = m.env := by
  have hKept := h body.stmts m'
  rw [Eval.roundBody, Eval.leaving] at hRun
  cases hStmts : ev.stmts body.stmts m' with
  | error stop inner =>
      rw [hStmts] at hRun
      cases hRun
  | ok found inner =>
      rw [hStmts] at hRun hKept
      cases hRun
      have hInner : inner.env = (m.env.push m.store).1 := hKept.trans hBinds.env_eq
      exact congrArg Env.pop hInner

/-- A loop changes a cell only where the statements in it do. By induction on the items; what is
declared global is part of the cell, and so stays the same with it. -/
theorem spares_runItems (hScopes : ev.KeepsScopes) {x : StoreCell} {item : Ident}
    {index : Option Ident} {body : Block}
    (hBody : ∀ m, m.store.HasCell x → Spares x (ev.stmts body.stmts) m) (i : Nat)
    (items : List Value) (hx : m.store.HasCell x)
    (hNone : x = .names m.env.namespaceCell →
      ∀ name ∈ loopNames item index, m.env.isGlobal m.store name = false) :
    Spares x (runItems ev item index body i items) m := by
  induction items generalizing i m with
  | nil => exact .pure Flow.normal hx
  | cons v rest ih =>
      obtain ⟨opened, after, hBinds, hRun, hAfter⟩ :=
        runItems_binds ev m item index body i v rest
      have hOpened := hBinds.store.grown.hasCell hx
      have hRound : Spares x (roundBody ev body) opened :=
        (hBody opened hOpened).leaving fun _ => rfl
      refine Spares.after (hRound.bind fun flow last hEnds hLast hSame => ?_) hBinds hx hNone hRun
      have hEnv : last.env = m.env := hScopes.roundBody hBinds hEnds
      have hStill : x = .names last.env.namespaceCell →
          ∀ name ∈ loopNames item index, last.env.isGlobal last.store name = false := by
        rw [hEnv]
        rintro rfl name hName
        have hSince : opened.store.namespaceAt m.env.namespaceCell =
            last.store.namespaceAt m.env.namespaceCell := hSame
        rw [Env.isGlobal, ← hSince]
        exact (hBinds.store.declared name).trans (hNone rfl name hName)
      have hOthers := ih (i + 1) hLast hStill
      cases flow with
      | normal => exact hAfter.normal ▸ hOthers
      | next => exact hAfter.next ▸ hOthers
      | leave => exact hAfter.leave ▸ .pure Flow.normal hLast
      | result v => exact hAfter.result v ▸ .pure (Flow.result v) hLast

/-- A call changes a cell only where the body of the function does. -/
theorem spares_callClosure {x : StoreCell} {closure : Closure}
    (hBody : ∀ caller m, m.store.HasCell x → Spares x (callBody ev closure caller) m) (args : Args)
    (hx : m.store.HasCell x)
    (hNone : x = .names closure.env.namespaceCell →
      ∀ name ∈ paramNames closure, closure.env.isGlobal m.store name = false) :
    Spares x (callClosure ev closure args) m := by
  rcases callClosure_binds ev m closure args with
    ⟨-, hRun⟩ | ⟨bound, opened, hBinds, ⟨hBound, fault, hRun⟩ | ⟨rfl, hRun⟩⟩
  · rw [Spares, hRun]
    exact ⟨hx, .refl _ _⟩
  · have hRefused : Spares x (Eval.leaving ({ · with env := m.env }) (fail fault : EvalM Value))
        opened := (Spares.fail fault (hBinds.store.grown.hasCell hx)).leaving fun _ => rfl
    exact hRefused.after hBinds hx
      (fun hNames name hName => hNone hNames name (hBound name hName)) hRun
  · exact (hBody _ opened (hBinds.store.grown.hasCell hx)).after hBinds hx hNone hRun

/-- Whatever is called from whatever machine, and whatever round of a loop is run from it:
parameters, items and indexes are bound in a scope that is new, also where the arguments are
refused, and unless one of these names was declared global, nothing has changed that was there when
the body starts. So for as long as they run: a cell that the statements of the body leave as it is,
is left as it is by the whole call, and by the whole loop if the statements leave the scopes open
that they find open, as those of every level of the evaluator do. -/
theorem bound_in_own_scope (ev : Level) (m : Machine) :
    (∀ fuel, (level fuel).KeepsScopes) ∧
    (∀ closure args,
      ((maxCallDepth ≤ m.calls ∧
          callClosure ev closure args m = .error (.failed { fault := .callDepth }) m) ∨
        ∃ bound m', m.Binds closure.env bound m' ∧
          ((∀ name ∈ paramNames closure, closure.env.isGlobal m.store name = false) →
            m.Untouched m') ∧
          (((∀ name ∈ bound, name ∈ paramNames closure) ∧ ∃ fault,
              callClosure ev closure args m = .error (.failed { fault }) { m' with env := m.env }) ∨
            bound = paramNames closure ∧
              callClosure ev closure args m = callBody ev closure m.env m')) ∧
      ∀ x, m.store.HasCell x →
        (x = .names closure.env.namespaceCell →
          ∀ name ∈ paramNames closure, closure.env.isGlobal m.store name = false) →
        (∀ caller m, m.store.HasCell x → Spares x (callBody ev closure caller) m) →
        Spares x (callClosure ev closure args) m) ∧
    ∀ item index body i v rest,
      (∃ m' after, m.Binds m.env (loopNames item index) m' ∧
        ((∀ name ∈ loopNames item index, m.env.isGlobal m.store name = false) → m.Untouched m') ∧
        runItems ev item index body i (v :: rest) m = (roundBody ev body >>= after) m' ∧
        ContinuesLoop (runItems ev item index body (i + 1) rest) after) ∧
      ∀ x, m.store.HasCell x →
        (x = .names m.env.namespaceCell →
          ∀ name ∈ loopNames item index, m.env.isGlobal m.store name = false) →
        ev.KeepsScopes → (∀ m, m.store.HasCell x → Spares x (ev.stmts body.stmts) m) →
        Spares x (runItems ev item index body i (v :: rest)) m := by
  refine ⟨keepsScopes_level, fun closure args => ⟨?_, fun x hx hNone hBody => ?_⟩,
    fun item index body i v rest => ⟨?_, fun x hx hNone hScopes hBody => ?_⟩⟩
  · rcases callClosure_binds ev m closure args with hRefused | ⟨bound, m', hBinds, hRun⟩
    · exact .inl hRefused
    · refine .inr ⟨bound, m', hBinds, fun hNone => hBinds.untouched fun name hName => ?_, hRun⟩
      rcases hRun with ⟨hBound, -⟩ | ⟨rfl, -⟩
      · exact hNone name (hBound name hName)
      · exact hNone name hName
  · exact spares_callClosure hBody args hx hNone
  · obtain ⟨m', after, hBinds, hRun, hAfter⟩ := runItems_binds ev m item index body i v rest
    exact ⟨m', after, hBinds, hBinds.untouched, hRun, hAfter⟩
  · exact spares_runItems hScopes hBody i (v :: rest) hx hNone

/-- A machine in whose only directive a name is bound to one. -/
def machineNaming (name : String) (globals : List String) : Machine :=
  { store := { namespaces := #[{ bindings := .ofList [(name, .int 1)], globals }] } }

/-- A function without statements, whose parameter has this name. -/
def closureNaming (name : String) : Closure :=
  ⟨.mk (.point .origin) none [⟨name, .point .origin⟩] (.mk (.point .origin) []), ⟨0, []⟩, 0⟩

/-- A parameter and the item of a loop that are named like something the directive has bound. -/
theorem bound_in_own_scope_shadowing :
    ((∀ name ∈ paramNames (closureNaming "n"),
        (⟨0, []⟩ : Env).isGlobal (machineNaming "n" []).store name = false) ∧
      ∀ name ∈ loopNames ⟨"n", .point .origin⟩ none,
        (⟨0, []⟩ : Env).isGlobal (machineNaming "n" []).store name = false) ∧
      (∃ bound m', (machineNaming "n" []).Binds ⟨0, []⟩ bound m' ∧
        (machineNaming "n" []).Untouched m') ∧
      ∃ m', (machineNaming "n" []).Binds ⟨0, []⟩ ["n"] m' ∧
        (machineNaming "n" []).Untouched m' := by
  have hNone : ∀ name ∈ ["n"],
      (⟨0, []⟩ : Env).isGlobal (machineNaming "n" []).store name = false := by decide
  obtain ⟨-, hCalls, hRounds⟩ := bound_in_own_scope (level 2) (machineNaming "n" [])
  refine ⟨⟨hNone, hNone⟩, ?_, ?_⟩
  · rcases (hCalls (closureNaming "n") { callee := "f", positional := [.int 5] }).1 with
      ⟨hDeep, -⟩ | ⟨bound, m', hBinds, hUntouched, -⟩
    · exact absurd hDeep (by decide)
    · exact ⟨bound, m', hBinds, hUntouched hNone⟩
  · obtain ⟨⟨m', -, hBinds, hUntouched, -⟩, -⟩ :=
      hRounds ⟨"n", .point .origin⟩ none (.mk (.point .origin) []) 0 (.int 5) []
    exact ⟨m', hBinds, hUntouched hNone⟩

/-- A parameter that is named like a declared global replaces what the directive has bound. -/
theorem parameter_replaces_global : ∃ m',
    callClosure (level 2) (closureNaming "n") { callee := "f", positional := [.int 5] }
        (machineNaming "n" ["n"]) = .ok .nil m' ∧
      ¬ (machineNaming "n" ["n"]).Untouched m' ∧
      (⟨0, []⟩ : Env).namespaceGet? (machineNaming "n" ["n"]).store "n" = some (.int 1) ∧
      (⟨0, []⟩ : Env).namespaceGet? m'.store "n" = some (.int 5) := by
  refine ⟨_, rfl, fun hUntouched => ?_, rfl, rfl⟩
  have hSame := congrArg (·.bindings.get? "n")
    (hUntouched (.names 0) (by change 0 < 1; exact Nat.one_pos))
  have hValues : some (Value.int 1) = some (Value.int 5) := hSame
  injection hValues with hInt
  injection hInt with hOne
  exact absurd hOne (by decide)

end Eval

end Metagen
