import Metagen.Value.Environment
import Mathlib.Data.List.Basic

/-! What changes of the store do to its cells: a change of one cell is seen there and nowhere else.
-/

namespace Metagen

/-- Changing one item of an array changes what is read at its index and nowhere else. -/
theorem getD_modify {α : Type} {xs : Array α} {i : Nat} (hi : i < xs.size) (j : Nat)
    (change : α → α) (other : α) :
    (xs.modify i change)[j]?.getD other =
      if i = j then change (xs[j]?.getD other) else xs[j]?.getD other := by
  rw [Array.getElem?_modify]
  split
  · next h =>
    subst h
    rw [Array.getElem?_eq_getElem hi]
    rfl
  · rfl

theorem getD_modify_of_ne {α : Type} (xs : Array α) {i j : Nat} (h : i ≠ j) (change : α → α)
    (other : α) : (xs.modify i change)[j]?.getD other = xs[j]?.getD other := by
  rw [Array.getElem?_modify, if_neg h]

theorem getD_push_self {α : Type} (xs : Array α) (x other : α) :
    (xs.push x)[xs.size]?.getD other = x := by
  rw [Array.getElem?_push, if_pos rfl]
  rfl

theorem getD_push_of_ne {α : Type} (xs : Array α) {j : Nat} (h : j ≠ xs.size) (x other : α) :
    (xs.push x)[j]?.getD other = xs[j]?.getD other := by
  rw [Array.getElem?_push, if_neg h]

theorem getD_append_left {α : Type} {xs : Array α} {j : Nat} (h : j < xs.size) (ys : Array α)
    (other : α) : (xs ++ ys)[j]?.getD other = xs[j]?.getD other := by
  rw [Array.getElem?_append_left h]

theorem getD_append_right {α : Type} {ys : Array α} {i : Nat} {y : α} (h : ys[i]? = some y)
    (xs : Array α) (other : α) : (xs ++ ys)[xs.size + i]?.getD other = y := by
  rw [Array.getElem?_append_right (Nat.le_add_right _ _), Nat.add_sub_cancel_left, h]
  rfl

namespace Store

variable {s : Store} {cell : Nat}

theorem listAt_modifyList (hCell : cell < s.lists.size) (change : Array Value → Array Value) :
    (s.modifyList cell change).listAt cell = change (s.listAt cell) := by
  have h := getD_modify hCell cell change #[]
  rwa [if_pos rfl] at h

theorem recordAt_modifyRecord (hCell : cell < s.records.size)
    (change : Bindings Value → Bindings Value) :
    (s.modifyRecord cell change).recordAt cell = change (s.recordAt cell) := by
  have h := getD_modify hCell cell change {}
  rwa [if_pos rfl] at h

theorem scopeAt_modifyScope (hCell : cell < s.scopes.size)
    (change : Bindings Value → Bindings Value) :
    (s.modifyScope cell change).scopeAt cell = change (s.scopeAt cell) := by
  have h := getD_modify hCell cell change {}
  rwa [if_pos rfl] at h

theorem namespaceAt_modifyNamespace (hCell : cell < s.namespaces.size)
    (change : Namespace → Namespace) :
    (s.modifyNamespace cell change).namespaceAt cell = change (s.namespaceAt cell) := by
  have h := getD_modify hCell cell change {}
  rwa [if_pos rfl] at h

end Store

namespace Env

variable {env : Env} {s : Store}

@[simp] theorem size_defineNamespace (env : Env) (s : Store) (name : String) (value : Value) :
    (env.defineNamespace s name value).namespaces.size = s.namespaces.size := Array.size_modify

/-- Binding a name among the names of a directive adds it behind them unless it is there. -/
theorem namespaceNames_defineNamespace (hCell : env.namespaceCell < s.namespaces.size)
    (name : String) (value : Value) : env.namespaceNames (env.defineNamespace s name value) =
      if name ∈ env.namespaceNames s then env.namespaceNames s
      else env.namespaceNames s ++ [name] := by
  rw [namespaceNames, defineNamespace, Store.namespaceAt_modifyNamespace hCell]
  exact Bindings.names_insert _ name value

/-- What a name of a directive is bound to is changed by binding that name and no other. -/
theorem namespaceGet?_defineNamespace (hCell : env.namespaceCell < s.namespaces.size)
    {name : String} {v : Value} (other : String) :
    env.namespaceGet? (env.defineNamespace s name v) other =
      if other = name then some v else env.namespaceGet? s other := by
  rw [namespaceGet?, defineNamespace, Store.namespaceAt_modifyNamespace hCell]
  exact Bindings.get?_insert _ name v other

end Env

end Metagen
