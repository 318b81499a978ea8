import Metagen.Proofs.Bindings
import Metagen.Proofs.Value.Cells

/-! Cells that nothing may change. A guard names some cells of a store. Steps that hold none of them
and find no way to them cannot change them, and whatever such steps make finds no way to them
either; that every single change of the store is such a step is shown here. -/

namespace Metagen

/-- Some cells of a store. -/
structure Guard where
  base : Store
  closed : base.Closed
  guards : StoreCell → Prop
  made : ∀ x, guards x → base.HasCell x

theorem Store.closed_empty : ({} : Store).Closed := by
  intro x y hy
  have hHas := hasCell_of_mem_links hy
  cases x <;> exact (Nat.not_lt_zero _ hHas).elim

def Guard.nothing (s : Store) (hClosed : s.Closed) : Guard where
  base := s
  closed := hClosed
  guards _ := False
  made _ h := h.elim

namespace Guard

/-- The cell has been made and is not guarded. -/
def Free (g : Guard) (s : Store) (x : StoreCell) : Prop := s.HasCell x ∧ ¬ g.guards x

/-- A later store in which guarded cells hold what they held, and no other cell leads to them. -/
structure Keeps (g : Guard) (s : Store) : Prop where
  grown : g.base.Grown s
  agrees : ∀ x, g.guards x → g.base.Agrees s x
  closed : ∀ x, ¬ g.guards x → ∀ y ∈ s.links x, g.Free s y

/-- A way from one store to a later one that keeps what is guarded. -/
structure Advances (g : Guard) (s t : Store) : Prop where
  grown : s.Grown t
  keeps : g.Keeps t

/-- The value is not a guarded cell. -/
def FreeValue (g : Guard) (s : Store) (v : Value) : Prop := ∀ x, v.cell? = some x → g.Free s x

def FreeValues (g : Guard) (s : Store) (vs : List Value) : Prop := ∀ v ∈ vs, g.FreeValue s v

def FreeEnv (g : Guard) (s : Store) (env : Env) : Prop := ∀ x ∈ env.cells, g.Free s x

variable {g : Guard} {s t : Store} {x : StoreCell}

theorem Free.mono (h : g.Free s x) (hGrown : s.Grown t) : g.Free t x :=
  ⟨hGrown.hasCell h.1, h.2⟩

theorem FreeValue.mono {v : Value} (h : g.FreeValue s v) (hGrown : s.Grown t) :
    g.FreeValue t v := fun x hx => (h x hx).mono hGrown

theorem FreeValues.mono {vs : List Value} (h : g.FreeValues s vs) (hGrown : s.Grown t) :
    g.FreeValues t vs := fun v hv => (h v hv).mono hGrown

theorem FreeEnv.mono {env : Env} (h : g.FreeEnv s env) (hGrown : s.Grown t) :
    g.FreeEnv t env := fun x hx => (h x hx).mono hGrown

/-- A value that is no cell is free. -/
theorem freeValue_of_cell?_eq_none {v : Value} (h : v.cell? = none) : g.FreeValue s v := by
  intro x hx
  rw [h] at hx
  cases hx

@[simp] theorem freeValue_list {cell : Nat} :
    g.FreeValue s (.list cell) ↔ g.Free s (.list cell) := by
  simp [FreeValue, Value.cell?]

@[simp] theorem freeValue_record {cell : Nat} :
    g.FreeValue s (.record cell) ↔ g.Free s (.record cell) := by
  simp [FreeValue, Value.cell?]

@[simp] theorem freeValue_function {cell : Nat} :
    g.FreeValue s (.function cell) ↔ g.Free s (.function cell) := by
  simp [FreeValue, Value.cell?]

@[simp] theorem freeValues_nil : g.FreeValues s [] := by
  simp [FreeValues]

@[simp] theorem freeValues_cons {v : Value} {vs : List Value} :
    g.FreeValues s (v :: vs) ↔ g.FreeValue s v ∧ g.FreeValues s vs := by
  simp [FreeValues]

@[simp] theorem freeValues_append {vs ws : List Value} :
    g.FreeValues s (vs ++ ws) ↔ g.FreeValues s vs ∧ g.FreeValues s ws := by
  simp only [FreeValues, List.mem_append, or_imp, forall_and]

/-- Values are free exactly if all cells that they stand for are. -/
theorem freeValues_iff_links {vs : List Value} :
    g.FreeValues s vs ↔ ∀ y ∈ vs.filterMap Value.cell?, g.Free s y := by
  simp only [List.mem_filterMap, FreeValues, FreeValue]
  constructor
  · rintro h y ⟨v, hv, hy⟩
    exact h v hv y hy
  · intro h v hv y hy
    exact h y ⟨v, hv, hy⟩

theorem keeps_nothing (hClosed : s.Closed) : (nothing s hClosed).Keeps s :=
  ⟨.refl s, fun _ h => h.elim, fun x _ y hy => ⟨hClosed x y hy, id⟩⟩

theorem Keeps.advances (h : g.Keeps s) : g.Advances s s := ⟨.refl s, h⟩

theorem Advances.trans {u : Store} (h : g.Advances s t) (h' : g.Advances t u) : g.Advances s u :=
  ⟨h.grown.trans h'.grown, h'.keeps⟩

namespace Keeps

theorem not_guards_of_not_hasCell (h : g.Keeps s) (hx : ¬ s.HasCell x) : ¬ g.guards x :=
  fun hGuarded => hx (h.grown.hasCell (g.made x hGuarded))

/-- Guarded cells lead to cells of the first store, and others to free ones. -/
theorem closedStore (h : g.Keeps s) : s.Closed := by
  intro x y hy
  by_cases hx : g.guards x
  · rw [← (h.agrees x hx).links_eq] at hy
    exact h.grown.hasCell (g.closed x y hy)
  · exact (h.closed x hx y hy).1

theorem listAt (h : g.Keeps s) {cell : Nat} (hCell : g.Free s (.list cell)) :
    g.FreeValues s (s.listAt cell).toList :=
  freeValues_iff_links.2 (h.closed _ hCell.2)

theorem recordAt (h : g.Keeps s) {cell : Nat} (hCell : g.Free s (.record cell)) :
    g.FreeValues s (s.recordAt cell).values :=
  freeValues_iff_links.2 (h.closed _ hCell.2)

theorem scopeAt (h : g.Keeps s) {cell : Nat} (hCell : g.Free s (.scope cell)) :
    g.FreeValues s (s.scopeAt cell).values :=
  freeValues_iff_links.2 (h.closed _ hCell.2)

theorem namespaceAt (h : g.Keeps s) {cell : Nat} (hCell : g.Free s (.names cell)) :
    g.FreeValues s (s.namespaceAt cell).bindings.values :=
  freeValues_iff_links.2 (h.closed _ hCell.2)

theorem closure (h : g.Keeps s) {cell : Nat} (hCell : g.Free s (.function cell))
    {closure : Closure} (hClosure : s.functions[cell]? = some closure) :
    g.FreeEnv s closure.env := by
  have hLinks : s.links (.function cell) = closure.env.cells := by
    simp [Store.links, Store.closureCells, hClosure]
  intro y hy
  exact h.closed _ hCell.2 y (hLinks ▸ hy)

/-- One cell that is not guarded is changed or made, and leads to free cells afterwards. -/
theorem change (h : g.Keeps s) (hx : ¬ g.guards x) (hGrown : s.Grown t)
    (hSame : ∀ y, y ≠ x → s.Agrees t y) (hLinks : ∀ y ∈ t.links x, g.Free t y) :
    g.Advances s t := by
  refine ⟨hGrown, h.grown.trans hGrown, fun y hy => ?_, fun y hy z hz => ?_⟩
  · have hNe : y ≠ x := by
      rintro rfl
      exact hx hy
    exact (h.agrees y hy).trans (hSame y hNe)
  · by_cases hEq : y = x
    · subst hEq
      exact hLinks z hz
    · rw [← (hSame y hEq).links_eq] at hz
      exact (h.closed y hy z hz).mono hGrown

/-- A new list of free values keeps what is guarded and is free itself. -/
theorem newList (h : g.Keeps s) {items : Array Value} (hItems : g.FreeValues s items.toList) :
    g.Advances s (s.newList items).2 ∧
      g.FreeValue (s.newList items).2 (s.newList items).1 := by
  have hGrown : s.Grown (s.newList items).2 :=
    { Store.Grown.refl s with lists := by simp [Store.newList] }
  have hNew : ¬ g.guards (.list s.lists.size) := h.not_guards_of_not_hasCell (Nat.lt_irrefl _)
  have hAt : (s.newList items).2.listAt s.lists.size = items := getD_push_self s.lists items #[]
  refine ⟨h.change hNew hGrown (fun _ => Store.agrees_newList items) ?_, ?_⟩
  · change ∀ y ∈ ((s.newList items).2.listAt s.lists.size).toList.filterMap _, _
    rw [hAt, ← freeValues_iff_links]
    exact hItems.mono hGrown
  · refine freeValue_list.2 ⟨?_, hNew⟩
    simp [Store.HasCell, Store.newList]

/-- A new record of free values keeps what is guarded and is free itself. -/
theorem newRecord (h : g.Keeps s) {fields : Bindings Value}
    (hFields : g.FreeValues s fields.values) :
    g.Advances s (s.newRecord fields).2 ∧
      g.FreeValue (s.newRecord fields).2 (s.newRecord fields).1 := by
  have hGrown : s.Grown (s.newRecord fields).2 :=
    { Store.Grown.refl s with records := by simp [Store.newRecord] }
  have hNew : ¬ g.guards (.record s.records.size) := h.not_guards_of_not_hasCell (Nat.lt_irrefl _)
  have hAt : (s.newRecord fields).2.recordAt s.records.size = fields :=
    getD_push_self s.records fields {}
  refine ⟨h.change hNew hGrown (fun _ => Store.agrees_newRecord fields) ?_, ?_⟩
  · change ∀ y ∈ ((s.newRecord fields).2.recordAt s.records.size).values.filterMap _, _
    rw [hAt, ← freeValues_iff_links]
    exact hFields.mono hGrown
  · refine freeValue_record.2 ⟨?_, hNew⟩
    simp [Store.HasCell, Store.newRecord]

/-- A new function keeps what is guarded, and is free if the scopes it was written in are. -/
theorem newFunction (h : g.Keeps s) {closure : Closure} (hEnv : g.FreeEnv s closure.env) :
    g.Advances s (s.newFunction closure).2 ∧
      g.FreeValue (s.newFunction closure).2 (s.newFunction closure).1 := by
  have hGrown : s.Grown (s.newFunction closure).2 :=
    { Store.Grown.refl s with functions := by simp [Store.newFunction] }
  have hNew : ¬ g.guards (.function s.functions.size) :=
    h.not_guards_of_not_hasCell (Nat.lt_irrefl _)
  have hLinks : (s.newFunction closure).2.links (.function s.functions.size) =
      closure.env.cells := by
    simp [Store.links, Store.closureCells, Store.newFunction]
  refine ⟨h.change hNew hGrown (fun _ => Store.agrees_newFunction closure) ?_, ?_⟩
  · rw [hLinks]
    exact hEnv.mono hGrown
  · refine freeValue_function.2 ⟨?_, hNew⟩
    simp [Store.HasCell, Store.newFunction]

/-- A new scope keeps what is guarded and is free, as nothing is bound in it. -/
theorem newScope (h : g.Keeps s) : g.Advances s s.newScope.2 ∧
    g.Free s.newScope.2 (.scope s.newScope.1) := by
  have hGrown : s.Grown s.newScope.2 :=
    { Store.Grown.refl s with scopes := by simp [Store.newScope] }
  have hNew : ¬ g.guards (.scope s.scopes.size) := h.not_guards_of_not_hasCell (Nat.lt_irrefl _)
  have hAt : s.newScope.2.scopeAt s.scopes.size = {} := getD_push_self s.scopes {} {}
  refine ⟨h.change hNew hGrown (fun _ => Store.agrees_newScope) ?_, ?_, hNew⟩
  · change ∀ y ∈ (s.newScope.2.scopeAt s.scopes.size).values.filterMap _, _
    rw [hAt]
    simp [Bindings.values]
  · simp [Store.HasCell, Store.newScope]

/-- The names of a new directive keep what is guarded and are free, as nothing is bound in them. -/
theorem newNamespace (h : g.Keeps s) : g.Advances s s.newNamespace.2 ∧
    g.Free s.newNamespace.2 (.names s.newNamespace.1) := by
  have hGrown : s.Grown s.newNamespace.2 :=
    { Store.Grown.refl s with namespaces := by simp [Store.newNamespace] }
  have hNew : ¬ g.guards (.names s.namespaces.size) := h.not_guards_of_not_hasCell (Nat.lt_irrefl _)
  have hAt : s.newNamespace.2.namespaceAt s.namespaces.size = {} :=
    getD_push_self s.namespaces {} {}
  refine ⟨h.change hNew hGrown (fun _ => Store.agrees_newNamespace) ?_, ?_, hNew⟩
  · change ∀ y ∈ (s.newNamespace.2.namespaceAt s.namespaces.size).bindings.values.filterMap _, _
    rw [hAt]
    simp [Bindings.values]
  · simp [Store.HasCell, Store.newNamespace]

/-- Changing a list that is free to free items keeps what is guarded. -/
theorem modifyList (h : g.Keeps s) {cell : Nat} (hCell : g.Free s (.list cell))
    {change : Array Value → Array Value}
    (hChange : g.FreeValues s (change (s.listAt cell)).toList) :
    g.Advances s (s.modifyList cell change) := by
  have hGrown : s.Grown (s.modifyList cell change) :=
    { Store.Grown.refl s with lists := by simp [Store.modifyList] }
  refine h.change hCell.2 hGrown (fun _ => Store.agrees_modifyList change) ?_
  change ∀ y ∈ ((s.modifyList cell change).listAt cell).toList.filterMap _, _
  rw [Store.listAt_modifyList hCell.1, ← freeValues_iff_links]
  exact hChange.mono hGrown

/-- Changing a record that is free to free fields keeps what is guarded. -/
theorem modifyRecord (h : g.Keeps s) {cell : Nat} (hCell : g.Free s (.record cell))
    {change : Bindings Value → Bindings Value}
    (hChange : g.FreeValues s (change (s.recordAt cell)).values) :
    g.Advances s (s.modifyRecord cell change) := by
  have hGrown : s.Grown (s.modifyRecord cell change) :=
    { Store.Grown.refl s with records := by simp [Store.modifyRecord] }
  refine h.change hCell.2 hGrown (fun _ => Store.agrees_modifyRecord change) ?_
  change ∀ y ∈ ((s.modifyRecord cell change).recordAt cell).values.filterMap _, _
  rw [Store.recordAt_modifyRecord hCell.1, ← freeValues_iff_links]
  exact hChange.mono hGrown

/-- Changing a scope that is free to free bindings keeps what is guarded. -/
theorem modifyScope (h : g.Keeps s) {cell : Nat} (hCell : g.Free s (.scope cell))
    {change : Bindings Value → Bindings Value}
    (hChange : g.FreeValues s (change (s.scopeAt cell)).values) :
    g.Advances s (s.modifyScope cell change) := by
  have hGrown : s.Grown (s.modifyScope cell change) :=
    { Store.Grown.refl s with scopes := by simp [Store.modifyScope] }
  refine h.change hCell.2 hGrown (fun _ => Store.agrees_modifyScope change) ?_
  change ∀ y ∈ ((s.modifyScope cell change).scopeAt cell).values.filterMap _, _
  rw [Store.scopeAt_modifyScope hCell.1, ← freeValues_iff_links]
  exact hChange.mono hGrown

/-- Changing the names of a free directive to free bindings keeps what is guarded. -/
theorem modifyNamespace (h : g.Keeps s) {cell : Nat} (hCell : g.Free s (.names cell))
    {change : Namespace → Namespace}
    (hChange : g.FreeValues s (change (s.namespaceAt cell)).bindings.values) :
    g.Advances s (s.modifyNamespace cell change) := by
  have hGrown : s.Grown (s.modifyNamespace cell change) :=
    { Store.Grown.refl s with namespaces := by simp [Store.modifyNamespace] }
  refine h.change hCell.2 hGrown (fun _ => Store.agrees_modifyNamespace change) ?_
  change ∀ y ∈ ((s.modifyNamespace cell change).namespaceAt cell).bindings.values.filterMap _, _
  rw [Store.namespaceAt_modifyNamespace hCell.1, ← freeValues_iff_links]
  exact hChange.mono hGrown

/-- The log is no cell, so that writing to it keeps what is guarded. -/
theorem logLine (h : g.Keeps s) (line : String) : g.Advances s (s.logLine line) := by
  have hSame : ∀ y, s.Agrees (s.logLine line) y := by
    intro y
    cases y <;> rfl
  have hGrown : s.Grown (s.logLine line) :=
    ⟨Nat.le_refl _, Nat.le_refl _, Nat.le_refl _, Nat.le_refl _, Nat.le_refl _⟩
  refine ⟨hGrown, h.grown.trans hGrown, fun y hy => ?_, fun y hy z hz => ?_⟩
  · exact (h.agrees y hy).trans (hSame y)
  · rw [← (hSame y).links_eq] at hz
    exact (h.closed y hy z hz).mono hGrown

end Keeps

theorem freeEnv_iff {env : Env} : g.FreeEnv s env ↔
    g.Free s (.names env.namespaceCell) ∧ ∀ cell ∈ env.inner, g.Free s (.scope cell) := by
  simp [FreeEnv, Env.cells]

theorem freeEnv_pop {env : Env} (h : g.FreeEnv s env) : g.FreeEnv s env.pop := by
  obtain ⟨hNames, hScopes⟩ := freeEnv_iff.1 h
  exact freeEnv_iff.2 ⟨hNames, fun _ hCell => hScopes _ (List.mem_of_mem_tail hCell)⟩

theorem FreeValues.get? {b : Bindings Value} (h : g.FreeValues s b.values) {name : String}
    {v : Value} (hValue : b.get? name = some v) : g.FreeValue s v :=
  h v (Bindings.mem_values_of_get? hValue)

/-- Binding a name to a free value keeps all bound values free. -/
theorem FreeValues.insert {b : Bindings Value} (h : g.FreeValues s b.values) {v : Value}
    (hv : g.FreeValue s v) (name : String) : g.FreeValues s (b.insert name v).values := by
  intro w hw
  rcases Bindings.mem_values_insert hw with rfl | hOld
  · exact hv
  · exact h w hOld

namespace Keeps

/-- The scopes of a new directive are free and keep what is guarded. -/
theorem freshEnv (h : g.Keeps s) :
    g.Advances s (Env.fresh s).2 ∧ g.FreeEnv (Env.fresh s).2 (Env.fresh s).1 := by
  obtain ⟨hAdvances, hFree⟩ := h.newNamespace
  exact ⟨hAdvances, freeEnv_iff.2 ⟨hFree, by simp [Env.fresh]⟩⟩

/-- A scope that is opened inside free ones keeps what is guarded, and all the scopes are free. -/
theorem pushEnv (h : g.Keeps s) {env : Env} (hEnv : g.FreeEnv s env) :
    g.Advances s (env.push s).2 ∧ g.FreeEnv (env.push s).2 (env.push s).1 := by
  obtain ⟨hAdvances, hFree⟩ := h.newScope
  obtain ⟨hNames, hInner⟩ := freeEnv_iff.1 (hEnv.mono hAdvances.grown)
  refine ⟨hAdvances, freeEnv_iff.2 ⟨hNames, fun cell hCell => ?_⟩⟩
  rcases List.mem_cons.1 hCell with rfl | hOld
  · exact hFree
  · exact hInner cell hOld

/-- Binding a name among the names of a free directive keeps what is guarded. -/
theorem defineNamespace (h : g.Keeps s) {env : Env} (hEnv : g.FreeEnv s env) {v : Value}
    (hv : g.FreeValue s v) (name : String) : g.Advances s (env.defineNamespace s name v) := by
  have hCell := (freeEnv_iff.1 hEnv).1
  exact h.modifyNamespace hCell ((h.namespaceAt hCell).insert hv name)

/-- Binding a name to a free value in free scopes keeps what is guarded, wherever it is bound. -/
theorem define (h : g.Keeps s) {env : Env} (hEnv : g.FreeEnv s env) {v : Value}
    (hv : g.FreeValue s v) (name : String) : g.Advances s (env.define s name v) := by
  unfold Env.define
  cases hInner : env.inner with
  | nil => exact h.defineNamespace hEnv hv name
  | cons cell rest =>
      have hCell : g.Free s (.scope cell) := (freeEnv_iff.1 hEnv).2 cell (by simp [hInner])
      dsimp only
      split
      · exact h.defineNamespace hEnv hv name
      · exact h.modifyScope hCell ((h.scopeAt hCell).insert hv name)

/-- Declaring a name global keeps what is guarded, since it binds nothing. -/
theorem declareGlobal (h : g.Keeps s) {env : Env} (hEnv : g.FreeEnv s env) (name : String) :
    g.Advances s (env.declareGlobal s name) := by
  have hCell := (freeEnv_iff.1 hEnv).1
  refine h.modifyNamespace hCell ?_
  split
  · exact h.namespaceAt hCell
  · exact h.namespaceAt hCell

theorem namespaceGet? (h : g.Keeps s) {env : Env} (hEnv : g.FreeEnv s env) {name : String}
    {v : Value} (hValue : env.namespaceGet? s name = some v) : g.FreeValue s v :=
  (h.namespaceAt (freeEnv_iff.1 hEnv).1).get? hValue

/-- What a name is bound to in free scopes is free. -/
theorem envGet? (h : g.Keeps s) {env : Env} (hEnv : g.FreeEnv s env) {name : String} {v : Value}
    (hValue : env.get? s name = some v) : g.FreeValue s v := by
  unfold Env.get? at hValue
  cases hInner : env.inner.findSome? fun cell => (s.scopeAt cell).get? name with
  | none =>
      rw [hInner] at hValue
      exact h.namespaceGet? hEnv hValue
  | some found =>
      rw [hInner] at hValue
      obtain rfl : found = v := Option.some.inj hValue
      obtain ⟨cell, hCell, hFound⟩ := List.exists_of_findSome?_eq_some hInner
      exact (h.scopeAt ((freeEnv_iff.1 hEnv).2 cell hCell)).get? hFound

/-- Assigning a free value to a name in free scopes keeps what is guarded. -/
theorem envSet? (h : g.Keeps s) {env : Env} (hEnv : g.FreeEnv s env) {v : Value}
    (hv : g.FreeValue s v) {name : String} (hSet : env.set? s name v = some t) :
    g.Advances s t := by
  unfold Env.set? at hSet
  cases hFound : env.inner.find? fun cell => (s.scopeAt cell).contains name with
  | some cell =>
      rw [hFound] at hSet
      obtain rfl := Option.some.inj hSet
      have hCell := (freeEnv_iff.1 hEnv).2 cell (List.mem_of_find?_eq_some hFound)
      exact h.modifyScope hCell ((h.scopeAt hCell).insert hv name)
  | none =>
      rw [hFound] at hSet
      dsimp only at hSet
      split at hSet
      · obtain rfl := Option.some.inj hSet
        exact h.defineNamespace hEnv hv name
      · cases hSet

end Keeps

end Guard

end Metagen
