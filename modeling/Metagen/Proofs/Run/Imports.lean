import Metagen.Proofs.Run.Symbols
import Metagen.Proofs.Value.Copy

/-! What a directive starts with: a copy of each value that it imports, and nothing that leads to
what is guarded unless a function among the imports does. -/

namespace Metagen

namespace Guard

variable {g : Guard} {s : Store} {v : Value}

theorem FreeValue.hasValue (h : g.FreeValue s v) : s.HasValue v := fun x hx => (h x hx).1

theorem harmless_nothing (hClosed : s.Closed) (hv : s.HasValue v) :
    (nothing s hClosed).Harmless v := ⟨hv, fun _ _ => id⟩

/-- Copying the value gives no way to what is guarded. -/
def Copyable (g : Guard) (s : Store) (v : Value) : Prop := g.FreeValue s v ∨ g.Harmless v

theorem Copyable.mono {t : Store} (h : g.Copyable s v) (hGrown : s.Grown t) : g.Copyable t v :=
  h.imp_left fun hFree => hFree.mono hGrown

theorem Copyable.hasValue (h : g.Copyable s v) (hKeeps : g.Keeps s) : s.HasValue v := by
  rcases h with hFree | hHarmless
  · exact hFree.hasValue
  · exact fun x hx => hKeeps.grown.hasCell (hHarmless.made x hx)

namespace Keeps

/-- Copying a value that may be copied keeps what is guarded, and the copy is free. -/
theorem copy (h : g.Keeps s) (hv : g.Copyable s v) :
    g.Advances s (s.deepCopy v).2 ∧ g.FreeValue (s.deepCopy v).2 (s.deepCopy v).1 := by
  refine h.deepCopy (hv.hasValue h) fun f hHolds => ?_
  rcases hv with hFree | hHarmless
  · exact freeValue_function.1 (h.freeValue_of_holdsValue hFree hHolds)
  · exact h.free_of_holdsValue hHarmless hHolds

/-- Importing a name copies a value into the names of the directive, and keeps what is guarded if
the copy finds no way to it. -/
theorem importName (h : g.Keeps s) {symbols : SymbolTable} {env : Env} (hEnv : g.FreeEnv s env)
    {name : String} (hCopy : ∀ v, symbols.get? name = some v → g.Copyable s v) :
    g.Advances s (SymbolTable.importName symbols env s name) := by
  cases hValue : symbols.get? name with
  | none =>
      rw [SymbolTable.importName, hValue]
      exact h.advances
  | some v =>
      rw [SymbolTable.importName_eq hValue]
      obtain ⟨hAdvances, hFree⟩ := h.copy (hCopy v hValue)
      exact hAdvances.trans
        (hAdvances.keeps.defineNamespace (hEnv.mono hAdvances.grown) hFree name)

/-- By induction over the names: importing all of them keeps what is guarded. -/
theorem importNames (h : g.Keeps s) {symbols : SymbolTable} {env : Env} (hEnv : g.FreeEnv s env)
    {names : List String}
    (hCopy : ∀ name ∈ names, ∀ v, symbols.get? name = some v → g.Copyable s v) :
    g.Advances s (names.foldl (SymbolTable.importName symbols env) s) := by
  induction names generalizing s with
  | nil => exact h.advances
  | cons name rest ih =>
      have hFirst := h.importName hEnv (hCopy name List.mem_cons_self)
      refine hFirst.trans (ih hFirst.keeps (hEnv.mono hFirst.grown) ?_)
      exact fun n hn v hv => (hCopy n (List.mem_cons_of_mem _ hn) v hv).mono hFirst.grown

/-- A directive starts with new names, and what it imports into them gives it no way to what is
guarded. -/
theorem namespaceFor (h : g.Keeps s) {symbols : SymbolTable} {d : Directive}
    (hCopy : ∀ name ∈ d.importedNames, ∀ v, symbols.get? name = some v → g.Copyable s v) :
    g.Advances s (symbols.namespaceFor d s).2 ∧
      g.FreeEnv (symbols.namespaceFor d s).2 (symbols.namespaceFor d s).1 := by
  obtain ⟨hFresh, hEnv⟩ := h.freshEnv
  have hAll : g.Advances (Env.fresh s).2 (symbols.namespaceFor d s).2 :=
    hFresh.keeps.importNames hEnv fun name hName v hv =>
      (hCopy name hName v hv).mono hFresh.grown
  exact ⟨hFresh.trans hAll, hEnv.mono hAll.grown⟩

end Keeps

end Guard

namespace Env

variable {env : Env} {s : Store} {name : String} {v : Value}

/-- Binding a name changes no container. -/
theorem agrees_defineNamespace (env : Env) (s : Store) (name : String) (v : Value)
    (c : Container) : s.Agrees (env.defineNamespace s name v) c.cell := by
  cases c <;> rfl

theorem hasCell_defineNamespace {c : Container} (h : s.HasCell c.cell) :
    (env.defineNamespace s name v).HasCell c.cell := by
  cases c <;> exact h

end Env

namespace SymbolTable

variable {symbols : SymbolTable} {env : Env} {s : Store} {name : String} {v : Value}

/-- Imports change the names of the directive, and no container that was there. -/
theorem agrees_importNames (names : List String) {c : Container} (hc : s.HasCell c.cell) :
    s.Agrees (names.foldl (importName symbols env) s) c.cell := by
  induction names generalizing s with
  | nil => exact .refl s _
  | cons name rest ih =>
      rw [List.foldl_cons]
      cases hValue : symbols.get? name with
      | none =>
          rw [importName, hValue]
          exact ih hc
      | some v =>
          rw [importName_eq hValue]
          have hDefine := env.agrees_defineNamespace (s.deepCopy v).2 name (s.deepCopy v).1 c
          refine (Store.agrees_deepCopy hc v).trans (hDefine.trans (ih ?_))
          exact Env.hasCell_defineNamespace ((s.grown_deepCopy v).hasCell hc)

/-- Later imports leave a name as it is bound. -/
theorem namespaceGet?_importNames {names : List String} (hName : name ∉ names)
    (hCell : env.namespaceCell < s.namespaces.size) :
    env.namespaceGet? (names.foldl (importName symbols env) s) name =
      env.namespaceGet? s name := by
  induction names generalizing s with
  | nil => rfl
  | cons other rest ih =>
      rw [List.mem_cons, not_or] at hName
      rw [List.foldl_cons]
      cases hValue : symbols.get? other with
      | none =>
          rw [importName, hValue]
          exact ih hName.2 hCell
      | some v =>
          have hSize : env.namespaceCell < (s.deepCopy v).2.namespaces.size := hCell
          have hSame : env.namespaceGet? (s.deepCopy v).2 name = env.namespaceGet? s name := rfl
          rw [importName_eq hValue, ih hName.2, ← hSame,
            Env.namespaceGet?_defineNamespace hSize, if_neg hName.1]
          rwa [Env.size_defineNamespace]

/-- A name is bound to the copy that was made in its turn, and that copy stays as it was made. -/
theorem importNames_binds {before after : List String} {middle : Store}
    (hMiddle : before.foldl (importName symbols env) s = middle) (hAfter : name ∉ after)
    (hValue : symbols.get? name = some v)
    (hCell : env.namespaceCell < middle.namespaces.size) {last : Store}
    (hLast : (before ++ name :: after).foldl (importName symbols env) s = last) :
    env.namespaceGet? last name = some (middle.deepCopy v).1 ∧
      ∀ c : Container, (middle.deepCopy v).2.HasCell c.cell →
        (middle.deepCopy v).2.Agrees last c.cell := by
  rw [List.foldl_append, List.foldl_cons, hMiddle, importName_eq hValue] at hLast
  subst hLast
  have hSize : env.namespaceCell < (middle.deepCopy v).2.namespaces.size := hCell
  constructor
  · rw [namespaceGet?_importNames hAfter (by rwa [Env.size_defineNamespace]),
      Env.namespaceGet?_defineNamespace hSize, if_pos rfl]
  · intro c hc
    exact (env.agrees_defineNamespace _ name _ c).trans
      (agrees_importNames after (Env.hasCell_defineNamespace hc))

/-- What a directive imports is bound to something that looks like the recorded value. -/
theorem alike_namespaceFor {d : Directive} (hClosed : s.Closed)
    (hMade : ∀ name v, symbols.get? name = some v → s.HasValue v)
    (hNodup : d.importedNames.Nodup) (hName : name ∈ d.importedNames)
    (hValue : symbols.get? name = some v) {first : Store}
    (hSame : ∀ c ∈ s.reached v, first.Agrees s c.cell) :
    ∃ copy, (symbols.namespaceFor d s).1.namespaceGet? (symbols.namespaceFor d s).2 name =
        some copy ∧ Alike first v (symbols.namespaceFor d s).2 copy := by
  obtain ⟨before, after, hSplit⟩ := List.append_of_mem hName
  have hAfter : name ∉ after := by
    rw [hSplit, List.nodup_append] at hNodup
    exact (List.nodup_cons.1 hNodup.2.1).1
  let env := (Env.fresh s).1
  let opened := (Env.fresh s).2
  obtain ⟨middle, hMiddle⟩ : ∃ t, before.foldl (importName symbols env) opened = t := ⟨_, rfl⟩
  obtain ⟨hFresh, hEnv⟩ := (Guard.keeps_nothing hClosed).freshEnv
  have hBefore : (Guard.nothing s hClosed).Advances opened middle := by
    rw [← hMiddle]
    exact hFresh.keeps.importNames hEnv fun n _ u hu =>
      .inr (Guard.harmless_nothing hClosed (hMade n u hu))
  -- Imports before this one leave old containers alone, so that the copy is one of the same value.
  have hOld : ∀ c : Container, s.HasCell c.cell → s.Agrees middle c.cell := by
    intro c hc
    have hOpened : s.Agrees opened c.cell := by
      cases c <;> rfl
    rw [← hMiddle]
    exact hOpened.trans (agrees_importNames before (hFresh.grown.hasCell hc))
  have hv : s.HasValue v := hMade name v hValue
  have hHas : ∀ c ∈ s.reached v, s.HasCell c.cell := fun c hc =>
    Store.hasCell_of_mem_reached hClosed hv hc
  have hReached : ∀ c ∈ middle.reached v, c ∈ s.reached v :=
    Store.mem_reached_of_agrees hClosed hv fun c hc => hOld c (hHas c hc)
  have hLast : (before ++ name :: after).foldl (importName symbols env) opened =
      (symbols.namespaceFor d s).2 := by
    rw [← hSplit]
    rfl
  have hCell : env.namespaceCell < middle.namespaces.size :=
    ((hEnv _ List.mem_cons_self).mono hBefore.grown).1
  obtain ⟨hBound, hKept⟩ := importNames_binds hMiddle hAfter hValue hCell hLast
  refine ⟨(middle.deepCopy v).1, hBound, ?_⟩
  apply Store.alike_deepCopy hBefore.keeps.closedStore
  · exact fun x hx => (hFresh.trans hBefore).grown.hasCell (hv x hx)
  · intro c hc
    exact (hSame c (hReached c hc)).trans (hOld c (hHas c (hReached c hc)))
  · exact hKept

end SymbolTable

end Metagen
