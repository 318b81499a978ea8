import Metagen.Proofs.Bindings
import Metagen.Proofs.Eval.Locality
import Mathlib.Data.List.Perm.Basic
import Mathlib.Logic.Function.Basic

/-! Which arguments the parameters of a function get. Arguments that are named go to the parameter
of that name, and all others to the parameters that are left, one by one and in order. If that uses
up all arguments and serves all parameters, the body runs, and otherwise nothing of it. -/

namespace Metagen

namespace Eval

open Script

namespace Args

/-- The parameters that no argument names. -/
def unnamed (a : Args) (params : List String) : List String :=
  params.filter (· ∉ a.named.names)

/-- There is an argument for each parameter, and a parameter for each argument. -/
structure Fit (a : Args) (params : List String) : Prop where
  named : ∀ name ∈ a.named.names, name ∈ params
  positional : a.positional.length = (a.unnamed params).length

/-- Each parameter has the value of its argument. -/
structure Gives (a : Args) (params : List String) (value : String → Value) : Prop where
  named : ∀ name v, a.named.get? name = some v → value name = v
  /-- The other parameters have the positional arguments, in order. -/
  positional : (a.unnamed params).map value = a.positional

/-- A parameter takes its argument, and leaves the others. -/
inductive TakesArgument (a : Args) (name : String) (v : Value) : Args → Prop where
  | named (h : a.named.get? name = some v) :
      TakesArgument a name v { a with named := a.named.erase name }
  | positional {rest : List Value} (hUnnamed : name ∉ a.named.names)
      (h : a.positional = v :: rest) : TakesArgument a name v { a with positional := rest }

variable {a left : Args} {name : String} {params : List String} {v : Value}

/-- A parameter takes the argument with its name, or else the next positional one, and is missing
only without both. -/
theorem take_cases (a : Args) (name : String) :
    (∃ v left, a.take name = some (v, left) ∧ a.TakesArgument name v left) ∨
      a.take name = none ∧ name ∉ a.named.names ∧ a.positional = [] := by
  cases hNamed : a.named.get? name with
  | some v => exact .inl ⟨v, _, by simp [take, takeNamed, hNamed], .named hNamed⟩
  | none =>
      have hUnnamed := (a.named.get?_eq_none_iff name).1 hNamed
      cases hPositional : a.positional with
      | nil => exact .inr ⟨by simp [take, takeNamed, hNamed, hPositional], hUnnamed, rfl⟩
      | cons v rest =>
          refine .inl ⟨v, _, ?_, .positional hUnnamed hPositional⟩
          simp [take, takeNamed, hNamed, hPositional]

namespace TakesArgument

/-- The parameters that come later do not see which argument has been taken. -/
theorem unnamed_eq (h : a.TakesArgument name v left) (hNew : name ∉ params) :
    left.unnamed params = a.unnamed params := by
  cases h with
  | positional => rfl
  | named =>
      refine List.filter_congr fun other hOther => ?_
      have hNe : other ≠ name := fun hEq => hNew (hEq ▸ hOther)
      simp [hNe]

/-- The arguments serve a parameter and those after it if the others serve those after it. -/
theorem fit_iff (h : a.TakesArgument name v left) (hNew : name ∉ params) :
    a.Fit (name :: params) ↔ left.Fit params := by
  have hUnnamed := h.unnamed_eq hNew
  cases h with
  | named hGet =>
      have hMem : name ∈ a.named.names := (a.named.exists_get?_iff name).1 ⟨v, hGet⟩
      have hSkip : a.unnamed (name :: params) = a.unnamed params :=
        List.filter_cons_of_neg (by simpa using hMem)
      constructor
      · intro hFit
        refine ⟨fun other hOther => ?_, by rw [hUnnamed, ← hSkip]; exact hFit.positional⟩
        rw [Bindings.names_erase, List.mem_filter, decide_eq_true_iff] at hOther
        exact (List.mem_cons.1 (hFit.named other hOther.1)).resolve_left hOther.2
      · intro hFit
        refine ⟨fun other hOther => ?_, by rw [hSkip, ← hUnnamed]; exact hFit.positional⟩
        by_cases hEq : other = name
        · exact hEq ▸ List.mem_cons_self
        · refine List.mem_cons_of_mem _ (hFit.named other ?_)
          rw [Bindings.names_erase, List.mem_filter, decide_eq_true_iff]
          exact ⟨hOther, hEq⟩
  | @positional rest hName hPositional =>
      have hServe : a.unnamed (name :: params) = name :: a.unnamed params :=
        List.filter_cons_of_pos (by simpa using hName)
      constructor
      · intro hFit
        refine ⟨fun other hOther => ?_, ?_⟩
        · refine (List.mem_cons.1 (hFit.named other hOther)).resolve_left ?_
          rintro rfl
          exact hName hOther
        · have hLength := hFit.positional
          rw [hServe, hPositional, List.length_cons, List.length_cons] at hLength
          exact Nat.succ.inj hLength
      · intro hFit
        refine ⟨fun other hOther => List.mem_cons_of_mem _ (hFit.named other hOther), ?_⟩
        rw [hServe, hPositional, List.length_cons, List.length_cons]
        exact congrArg Nat.succ hFit.positional

/-- What is given to the parameters after this one is given to all, together with its argument. -/
theorem gives (h : a.TakesArgument name v left) (hNew : name ∉ params) {value : String → Value}
    (hRest : left.Gives params value) :
    a.Gives (name :: params) (Function.update value name v) := by
  have hUnnamed := h.unnamed_eq hNew
  have hMap : (a.unnamed params).map (Function.update value name v) =
      (a.unnamed params).map value := by
    refine List.map_congr_left fun other hOther => Function.update_of_ne ?_ _ _
    rintro rfl
    exact hNew (List.mem_of_mem_filter hOther)
  have hRestEq := hRest.positional
  rw [hUnnamed, ← hMap] at hRestEq
  cases h with
  | named hGet =>
      have hMem : name ∈ a.named.names := (a.named.exists_get?_iff name).1 ⟨v, hGet⟩
      refine ⟨fun other w hOther => ?_, ?_⟩
      · by_cases hEq : other = name
        · subst hEq
          rw [Function.update_self]
          exact Option.some.inj (hGet.symm.trans hOther)
        · rw [Function.update_of_ne hEq]
          refine hRest.named other w ?_
          rwa [Bindings.get?_erase_of_ne _ hEq]
      · rw [unnamed, List.filter_cons_of_neg (by simpa using hMem)]
        exact hRestEq
  | @positional rest hName hPositional =>
      refine ⟨fun other w hOther => ?_, ?_⟩
      · have hEq : other ≠ name := by
          rintro rfl
          exact hName ((a.named.exists_get?_iff other).1 ⟨w, hOther⟩)
        rw [Function.update_of_ne hEq]
        exact hRest.named other w hOther
      · rw [unnamed, List.filter_cons_of_pos (by simpa using hName), List.map_cons,
          Function.update_self, hPositional]
        exact congrArg (v :: ·) hRestEq

/-- What is given to all parameters is the argument of the first one, and the rest. -/
theorem of_gives (h : a.TakesArgument name v left) (hNew : name ∉ params) {value : String → Value}
    (hGives : a.Gives (name :: params) value) : value name = v ∧ left.Gives params value := by
  have hUnnamed := h.unnamed_eq hNew
  have hPositional := hGives.positional
  cases h with
  | named hGet =>
      have hMem : name ∈ a.named.names := (a.named.exists_get?_iff name).1 ⟨v, hGet⟩
      rw [unnamed, List.filter_cons_of_neg (by simpa using hMem)] at hPositional
      refine ⟨hGives.named name v hGet, fun other w hOther => ?_, hUnnamed ▸ hPositional⟩
      have hNe : other ≠ name := by
        rintro rfl
        have hStill := ((a.named.erase other).exists_get?_iff other).1 ⟨w, hOther⟩
        simp at hStill
      exact hGives.named other w ((a.named.get?_erase_of_ne hNe).symm.trans hOther)
  | @positional rest hName hFirst =>
      rw [unnamed, List.filter_cons_of_pos (by simpa using hName), List.map_cons, hFirst,
        List.cons.injEq] at hPositional
      exact ⟨hPositional.1, hGives.named, hUnnamed ▸ hPositional.2⟩

end TakesArgument

/-- Where neither a named nor a positional argument is there for a parameter, one is missing. -/
theorem not_fit_cons (hName : name ∉ a.named.names) (hNone : a.positional = []) :
    ¬ a.Fit (name :: params) := by
  intro hFit
  have hLength := hFit.positional
  rw [hNone, unnamed, List.filter_cons_of_pos (by simpa using hName)] at hLength
  cases hLength

/-- Without parameters, arguments fit exactly if there are none. -/
theorem fit_nil_iff (a : Args) : a.Fit [] ↔ a.leftOver? = none := by
  have hNames : (∀ name ∈ a.named.names, name ∈ ([] : List String)) ↔ a.named.names = [] := by
    simp [List.eq_nil_iff_forall_not_mem]
  constructor
  · intro hFit
    have hPositional : a.positional = [] := List.length_eq_zero_iff.1 hFit.positional
    rw [leftOver?, hNames.1 hFit.named, hPositional]
  · intro hNone
    unfold leftOver? at hNone
    split at hNone
    · cases hNone
    · next hNamed hPositional => exact ⟨hNames.2 hNamed, by rw [hPositional]; rfl⟩
    · cases hNone

/-- All of the arguments are used, and each of them once. -/
theorem Gives.perm (hFit : a.Fit params) {value : String → Value} (h : a.Gives params value)
    (hDistinct : params.Nodup) : (params.map value).Perm (a.named.values ++ a.positional) := by
  have hNames : (params.filter (· ∈ a.named.names)).Perm a.named.names := by
    refine (List.perm_ext_iff_of_nodup (hDistinct.filter _) a.named.nodup).2 fun name => ?_
    rw [List.mem_filter, decide_eq_true_iff]
    exact ⟨fun hName => hName.2, fun hName => ⟨hFit.named name hName, hName⟩⟩
  have hValues : a.named.names.map value = a.named.values := by
    rw [Bindings.names, entryNames, List.map_map]
    refine List.map_congr_left fun entry hEntry => ?_
    exact h.named entry.1 entry.2 (Bindings.get?_of_mem_entries hEntry)
  have hSplit := (List.filter_append_perm (· ∈ a.named.names) params).symm.map value
  rw [List.map_append] at hSplit
  refine hSplit.trans (List.Perm.append (hValues ▸ hNames.map value) ?_)
  rw [← h.positional, unnamed]
  simp

/-- Arguments that are left over are a matter of types. -/
theorem kind_of_leftOver? {fault : Fault} (h : a.leftOver? = some fault) : fault.kind = .type := by
  unfold leftOver? at h
  split at h
  · cases h
    rfl
  · cases h
  · cases h
    rfl

end Args

end Eval

namespace Env

/-- What a parameter is bound to, in the scope of its call. A name that was declared global is bound
among the names of the directive. -/
def parameter? (env : Env) (s t : Store) (name : String) : Option Value :=
  if env.isGlobal s name then env.namespaceGet? t name else (t.scopeAt s.scopes.size).get? name

/-- What hides a parameter: a binding in one of the scopes that the function was written in, which
lie between its call and the names of the directive. -/
def hiding? (env : Env) (s : Store) (name : String) : Option Value :=
  if env.isGlobal s name then env.inner.findSome? fun cell => (s.scopeAt cell).get? name else none

variable {env : Env} {names : List String} {s t : Store} {name : String}

/-- Only names of a directive that has some can be declared global. -/
theorem namespaceCell_lt (h : env.isGlobal s name = true) :
    env.namespaceCell < s.namespaces.size := by
  by_contra hNone
  rw [isGlobal, Store.namespaceAt, Array.getElem?_eq_none (Nat.not_lt.1 hNone)] at h
  cases h

/-- Binding a parameter leaves those that are bound already. -/
theorem Binds.parameter?_define (h : env.Binds names s t) (name : String) (v : Value)
    (other : String) : env.parameter? s ((env.push s).1.define t name v) other =
      if other = name then some v else env.parameter? s t other := by
  have hDefine : (env.push s).1.define t name v =
      if env.isGlobal t name then env.defineNamespace t name v
      else t.modifyScope s.scopes.size (·.insert name v) := rfl
  have hMade : s.scopes.size < t.scopes.size := by
    rw [h.size]
    exact Nat.lt_succ_self _
  rw [hDefine, h.declared, parameter?, parameter?]
  cases hName : env.isGlobal s name with
  | true =>
      have hCell : env.namespaceCell < t.namespaces.size :=
        namespaceCell_lt ((h.declared name).trans hName)
      cases hOther : env.isGlobal s other with
      | true => exact namespaceGet?_defineNamespace hCell other
      | false =>
          have hNe : other ≠ name := by
            rintro rfl
            cases hName.symm.trans hOther
          rw [if_neg hNe]
          rfl
  | false =>
      cases hOther : env.isGlobal s other with
      | true =>
          have hNe : other ≠ name := by
            rintro rfl
            cases hName.symm.trans hOther
          rw [if_neg hNe]
          rfl
      | false =>
          rw [if_neg Bool.false_ne_true, if_neg Bool.false_ne_true,
            Store.scopeAt_modifyScope hMade, if_neg Bool.false_ne_true]
          exact Bindings.get?_insert _ name v other

/-- A scope that was there before holds what it held, and one that is not there holds nothing. -/
theorem Binds.scopeGet?_of_isGlobal (h : env.Binds names s t) (hGlobal : env.isGlobal s name = true)
    (cell : Nat) : (t.scopeAt cell).get? name = (s.scopeAt cell).get? name := by
  rcases Nat.lt_trichotomy cell s.scopes.size with hOld | rfl | hBeyond
  · have hSame : s.scopeAt cell = t.scopeAt cell := h.others (.scope cell) hOld (by simp)
    rw [hSame]
  · have hOwn : name ∉ (t.scopeAt s.scopes.size).names := by
      rw [h.own, hGlobal]
      simp
    have hNone : s.scopeAt s.scopes.size = {} := by simp [Store.scopeAt]
    rw [hNone, (Bindings.get?_eq_none_iff _ name).2 hOwn]
    rfl
  · have hLarge : t.scopes.size ≤ cell := by
      rw [h.size]
      exact hBeyond
    rw [Store.scopeAt, Store.scopeAt, Array.getElem?_eq_none hLarge,
      Array.getElem?_eq_none (Nat.le_of_lt hBeyond)]

/-- The body finds a parameter, unless it finds what hides it. -/
theorem Binds.get?_of_parameter? (h : env.Binds names s t) {v : Value}
    (hBound : env.parameter? s t name = some v) :
    (env.push s).1.get? t name = some ((env.hiding? s name).getD v) := by
  have hGet : (env.push s).1.get? t name =
      (((t.scopeAt s.scopes.size).get? name <|>
        env.inner.findSome? fun cell => (t.scopeAt cell).get? name) <|>
          env.namespaceGet? t name) := by
    rw [get?]
    simp only [push, Store.newScope, List.findSome?_cons]
    cases (t.scopeAt s.scopes.size).get? name <;> rfl
  rw [hGet, hiding?]
  cases hGlobal : env.isGlobal s name with
  | true =>
      rw [parameter?, hGlobal, if_pos rfl] at hBound
      have hOwn : (t.scopeAt s.scopes.size).get? name = none := by
        rw [h.scopeGet?_of_isGlobal hGlobal]
        simp [Store.scopeAt, Bindings.get?]
      simp only [h.scopeGet?_of_isGlobal hGlobal] at hOwn ⊢
      rw [hOwn, hBound, if_pos trivial]
      cases env.inner.findSome? fun cell => (s.scopeAt cell).get? name <;> rfl
  | false =>
      rw [parameter?, hGlobal, if_neg Bool.false_ne_true] at hBound
      rw [hBound]
      rfl

end Env

namespace Eval

open Script

variable {env : Env} {names : List String} {m m' : Machine}

/-- The machine has bound parameters to values. -/
structure Machine.PassesArguments (m : Machine) (env : Env) (params : List String)
    (value : String → Value) (m' : Machine) : Prop where
  binds : m.Binds env params m'
  bound : ∀ name ∈ params, env.parameter? m.store m'.store name = some (value name)

/-- Arguments that fit are bound. The induction is on the parameters; what has been bound before
stays bound, because no parameter has the name of another. -/
theorem bindParams_of_fit (h : m.Binds env names m') (label : String) {params : List Ident}
    (hDistinct : (params.map (·.name)).Nodup) {args : Args}
    (hFit : args.Fit (params.map (·.name))) :
    ∃ value last, bindParams label params args m' = .ok () last ∧
      args.Gives (params.map (·.name)) value ∧
      m.Binds env (params.reverse.map (·.name) ++ names) last ∧
      ∀ name, env.parameter? m.store last.store name =
        if name ∈ params.map (·.name) then some (value name)
        else env.parameter? m.store m'.store name := by
  induction params generalizing names m' args with
  | nil =>
      have hNone := (Args.fit_nil_iff args).1 hFit
      have hEmpty : args.positional = [] := List.length_eq_zero_iff.1 hFit.positional
      refine ⟨fun _ => .nil, m', ?_, ⟨fun name v hName => ?_, ?_⟩, h, fun name => rfl⟩
      · rw [bindParams, hNone]
        rfl
      · exact absurd (hFit.named name ((args.named.exists_get?_iff name).1 ⟨v, hName⟩))
          List.not_mem_nil
      · rw [hEmpty]
        rfl
  | cons param rest ih =>
      obtain ⟨hNew, hRest⟩ := List.nodup_cons.1 hDistinct
      rcases args.take_cases param.name with ⟨v, left, hTake, hTakes⟩ | ⟨-, hUnnamed, hNone⟩
      · obtain ⟨value, last, hRun, hGives, hBinds, hBound⟩ :=
          ih (h.define param.name v) hRest ((hTakes.fit_iff hNew).1 hFit)
        refine ⟨Function.update value param.name v, last, ?_, hTakes.gives hNew hGives, ?_,
          fun name => ?_⟩
        · rw [bindParams, hTake]
          exact hRun
        · simpa using hBinds
        · rw [hBound, h.env_eq, h.store.parameter?_define]
          by_cases hName : name = param.name
          · subst hName
            simp [hNew]
          · simp [hName]
      · exact absurd hFit (Args.not_fit_cons hUnnamed hNone)

/-- Arguments that do not fit are refused, when a parameter has none or when some are left over. -/
theorem bindParams_of_not_fit (h : m.Binds env names m') (label : String) {params : List Ident}
    (hDistinct : (params.map (·.name)).Nodup) {args : Args}
    (hFit : ¬ args.Fit (params.map (·.name))) :
    ∃ fault bound last, bindParams label params args m' = .error (.failed { fault }) last ∧
      fault.kind = .type ∧ m.Binds env bound last := by
  induction params generalizing names m' args with
  | nil =>
      rw [bindParams]
      cases hLeft : args.leftOver? with
      | none => exact absurd ((Args.fit_nil_iff args).2 hLeft) hFit
      | some fault => exact ⟨fault, names, m', rfl, Args.kind_of_leftOver? hLeft, h⟩
  | cons param rest ih =>
      obtain ⟨hNew, hRest⟩ := List.nodup_cons.1 hDistinct
      rw [bindParams]
      rcases args.take_cases param.name with ⟨v, left, hTake, hTakes⟩ | ⟨hTake, -, -⟩
      · rw [hTake]
        exact ih (h.define param.name v) hRest (mt (hTakes.fit_iff hNew).2 hFit)
      · rw [hTake]
        exact ⟨_, names, m', rfl, rfl, h⟩

/-- The body of a function runs exactly if its arguments fit its parameters. Then each parameter has
been bound to its argument, and each argument has been used once; the body finds it there, unless
the name was declared global and a scope around the function binds it too, which hides it. Arguments
that do not fit are refused as a matter of types, whatever the body is. -/
theorem arguments_bound (closure : Closure) (args : Args) (m : Machine)
    (hDistinct : (paramNames closure).Nodup) (hCalls : m.calls < maxCallDepth) :
    (args.Fit (paramNames closure) → ∃ value m',
      args.Gives (paramNames closure) value ∧
      ((paramNames closure).map value).Perm (args.named.values ++ args.positional) ∧
      m.PassesArguments closure.env (paramNames closure) value m' ∧
      (∀ name ∈ paramNames closure, m'.env.get? m'.store name =
        some ((closure.env.hiding? m.store name).getD (value name))) ∧
      ∀ ev, callClosure ev closure args m = callBody ev closure m.env m') ∧
    (¬ args.Fit (paramNames closure) → ∃ fault bound m',
      fault.kind = .type ∧ m.Binds closure.env bound m' ∧
      ∀ ev, callClosure ev closure args m =
        .error (.failed { fault }) { m' with env := m.env }) := by
  have hStart := Machine.Binds.start m closure.env
  constructor
  · intro hFit
    obtain ⟨value, m', hRun, hGives, hBinds, hBound⟩ :=
      bindParams_of_fit hStart closure.function.label hDistinct hFit
    have hPasses : m.PassesArguments closure.env (paramNames closure) value m' := by
      refine ⟨hBinds.congr fun name => by simp [paramNames], fun name hName => ?_⟩
      exact (hBound name).trans (if_pos hName)
    refine ⟨value, m', hGives, hGives.perm hFit hDistinct, hPasses, fun name hName => ?_,
      fun ev => ?_⟩
    · rw [hPasses.binds.env_eq]
      exact hPasses.binds.store.get?_of_parameter? (hPasses.bound name hName)
    · rw [callClosure_of_lt ev hCalls, hRun]
  · intro hFit
    obtain ⟨fault, bound, m', hRun, hKind, hBinds⟩ :=
      bindParams_of_not_fit hStart closure.function.label hDistinct hFit
    refine ⟨fault, bound, m', hKind, hBinds, fun ev => ?_⟩
    rw [callClosure_of_lt ev hCalls, hRun]

def closureReturning (first : String) (others : List String) (env : Env) : Closure :=
  let at0 : Span := .point .origin
  ⟨.mk at0 none ((first :: others).map (⟨·, at0⟩))
    (.mk at0 [.result at0 (some (.name at0 first))]), env, 0⟩

/-- A named argument between two positional ones, and the same call with one argument more. -/
theorem arguments_bound_mixed :
    (paramNames (closureReturning "a" ["b", "c"] ⟨0, []⟩)).Nodup ∧ (0 < maxCallDepth) ∧
      (∃ (value : String → Value) (m' : Machine),
        ["a", "b", "c"].map value = [.int 1, .int 2, .int 3] ∧
        (machineNaming "n" []).Binds ⟨0, []⟩ ["a", "b", "c"] m') ∧
      ∃ fault m', fault.kind = .type ∧
        callClosure (level 2) (closureReturning "a" ["b", "c"] ⟨0, []⟩)
          { callee := "f", positional := [.int 1, .int 3, .int 4]
            named := .ofList [("b", .int 2)] }
          (machineNaming "n" []) = .error (.failed { fault }) m' := by
  have hDistinct : (paramNames (closureReturning "a" ["b", "c"] ⟨0, []⟩)).Nodup := by decide
  refine ⟨hDistinct, by decide, ?_, ?_⟩
  · let args : Args :=
      { callee := "f", positional := [.int 1, .int 3], named := .ofList [("b", .int 2)] }
    obtain ⟨value, m', hGives, -, hPasses, -⟩ :=
      (arguments_bound _ args (machineNaming "n" []) hDistinct (by decide)).1
        ⟨by decide, by decide⟩
    have hNamed : value "b" = .int 2 := hGives.named "b" (.int 2) rfl
    have hOthers : ["a", "c"].map value = [.int 1, .int 3] := hGives.positional
    refine ⟨value, m', ?_, hPasses.binds⟩
    simp only [List.map_cons, List.map_nil, List.cons.injEq, and_true] at hOthers ⊢
    exact ⟨hOthers.1, hNamed, hOthers.2⟩
  · obtain ⟨fault, bound, m', hKind, -, hRun⟩ :=
      (arguments_bound (closureReturning "a" ["b", "c"] ⟨0, []⟩)
        { callee := "f", positional := [.int 1, .int 3, .int 4], named := .ofList [("b", .int 2)] }
        (machineNaming "n" []) hDistinct (by decide)).2
        fun hFit => absurd hFit.positional (by decide)
    exact ⟨fault, _, hKind, hRun (level 2)⟩

/-- A function called with five returns one, to which its parameter is bound in the scope that it
was written in: the name was declared global after that. -/
theorem captured_name_hides_parameter :
    let m : Machine :=
      { store := { scopes := #[.ofList [("n", .int 1)]], namespaces := #[{ globals := ["n"] }] } }
    ∃ m', callClosure (level 4) (closureReturning "n" [] ⟨0, [0]⟩)
        { callee := "f", positional := [.int 5] } m = .ok (.int 1) m' := ⟨_, rfl⟩

end Eval

end Metagen
