import Metagen.Proofs.Value.Store
import Mathlib.Logic.Relation

/-! Cells of the store and the ways between them. A list or a record leads to what it holds, a
function to the scopes it was written in, and a scope to what is bound in it. What a script can
reach, it can change, so these are the ways on which changes spread. -/

namespace Metagen

/-- A cell of any kind. -/
inductive StoreCell where
  | list (number : Nat)
  | record (number : Nat)
  | function (number : Nat)
  | scope (number : Nat)
  | names (number : Nat)
  deriving DecidableEq, Repr

/-- The cell that a value stands for. -/
def Value.cell? : Value → Option StoreCell
  | .list cell => some (.list cell)
  | .record cell => some (.record cell)
  | .function cell => some (.function cell)
  | _ => none

def Env.cells (env : Env) : List StoreCell := .names env.namespaceCell :: env.inner.map .scope

namespace Store

def HasCell (s : Store) : StoreCell → Prop
  | .list cell => cell < s.lists.size
  | .record cell => cell < s.records.size
  | .function cell => cell < s.functions.size
  | .scope cell => cell < s.scopes.size
  | .names cell => cell < s.namespaces.size

/-- The scopes that a function was written in. -/
def closureCells (s : Store) (cell : Nat) : List StoreCell :=
  (s.functions[cell]?.map (·.env.cells)).getD []

/-- The cells that a cell leads to. -/
def links (s : Store) : StoreCell → List StoreCell
  | .list cell => (s.listAt cell).toList.filterMap Value.cell?
  | .record cell => (s.recordAt cell).values.filterMap Value.cell?
  | .function cell => s.closureCells cell
  | .scope cell => (s.scopeAt cell).values.filterMap Value.cell?
  | .names cell => (s.namespaceAt cell).bindings.values.filterMap Value.cell?

/-- The cell holds the same in both stores. -/
def Agrees (s t : Store) : StoreCell → Prop
  | .list cell => s.listAt cell = t.listAt cell
  | .record cell => s.recordAt cell = t.recordAt cell
  | .function cell => s.functions[cell]? = t.functions[cell]?
  | .scope cell => s.scopeAt cell = t.scopeAt cell
  | .names cell => s.namespaceAt cell = t.namespaceAt cell

/-- There is a way from one cell to the other. -/
def Reaches (s : Store) : StoreCell → StoreCell → Prop :=
  Relation.ReflTransGen fun x y => y ∈ s.links x

/-- Cells lead to cells that have been made. -/
def Closed (s : Store) : Prop := ∀ x, ∀ y ∈ s.links x, s.HasCell y

/-- Cells are only added. -/
structure Grown (s t : Store) : Prop where
  lists : s.lists.size ≤ t.lists.size
  records : s.records.size ≤ t.records.size
  functions : s.functions.size ≤ t.functions.size
  scopes : s.scopes.size ≤ t.scopes.size
  namespaces : s.namespaces.size ≤ t.namespaces.size

theorem Grown.refl (s : Store) : Grown s s :=
  ⟨Nat.le_refl _, Nat.le_refl _, Nat.le_refl _, Nat.le_refl _, Nat.le_refl _⟩

/-- A store that grows twice has grown. -/
theorem Grown.trans {s t u : Store} (h : Grown s t) (h' : Grown t u) : Grown s u where
  lists := Nat.le_trans h.lists h'.lists
  records := Nat.le_trans h.records h'.records
  functions := Nat.le_trans h.functions h'.functions
  scopes := Nat.le_trans h.scopes h'.scopes
  namespaces := Nat.le_trans h.namespaces h'.namespaces

/-- Cells that have been made stay there while a store grows. -/
theorem Grown.hasCell {s t : Store} (h : Grown s t) {x : StoreCell} (hx : s.HasCell x) :
    t.HasCell x := by
  cases x with
  | list cell => exact Nat.lt_of_lt_of_le hx h.lists
  | record cell => exact Nat.lt_of_lt_of_le hx h.records
  | function cell => exact Nat.lt_of_lt_of_le hx h.functions
  | scope cell => exact Nat.lt_of_lt_of_le hx h.scopes
  | names cell => exact Nat.lt_of_lt_of_le hx h.namespaces

theorem Agrees.refl (s : Store) (x : StoreCell) : Agrees s s x := by
  cases x <;> rfl

theorem Agrees.trans {s t u : Store} {x : StoreCell} (h : Agrees s t x) (h' : Agrees t u x) :
    Agrees s u x := by
  cases x <;> exact Eq.trans h h'

/-- A cell that holds the same leads to the same cells. -/
theorem Agrees.links_eq {s t : Store} {x : StoreCell} (h : Agrees s t x) :
    s.links x = t.links x := by
  cases x with
  | list cell => exact congrArg (fun items => items.toList.filterMap Value.cell?) h
  | record cell => exact congrArg (fun fields => fields.values.filterMap Value.cell?) h
  | function cell =>
      exact congrArg (fun found : Option Closure => (found.map (·.env.cells)).getD []) h
  | scope cell => exact congrArg (fun bound => bound.values.filterMap Value.cell?) h
  | names cell => exact congrArg (fun names => names.bindings.values.filterMap Value.cell?) h

/-- A cell that has not been made leads nowhere. -/
theorem hasCell_of_mem_links {s : Store} {x y : StoreCell} (h : y ∈ s.links x) : s.HasCell x := by
  by_contra hNot
  cases x with
  | list cell =>
      have hNone : s.lists[cell]? = none := Array.getElem?_eq_none (Nat.not_lt.1 hNot)
      simp [links, listAt, hNone] at h
  | record cell =>
      have hNone : s.records[cell]? = none := Array.getElem?_eq_none (Nat.not_lt.1 hNot)
      simp [links, recordAt, hNone, Bindings.values] at h
  | function cell =>
      have hNone : s.functions[cell]? = none := Array.getElem?_eq_none (Nat.not_lt.1 hNot)
      simp [links, closureCells, hNone] at h
  | scope cell =>
      have hNone : s.scopes[cell]? = none := Array.getElem?_eq_none (Nat.not_lt.1 hNot)
      simp [links, scopeAt, hNone, Bindings.values] at h
  | names cell =>
      have hNone : s.namespaces[cell]? = none := Array.getElem?_eq_none (Nat.not_lt.1 hNot)
      simp [links, namespaceAt, hNone, Bindings.values] at h

variable {s : Store} {x : StoreCell}

theorem agrees_newList (items : Array Value) (hx : x ≠ .list s.lists.size) :
    s.Agrees (s.newList items).2 x := by
  cases x with
  | list cell => exact (getD_push_of_ne s.lists (fun h => hx (h ▸ rfl)) items #[]).symm
  | _ => rfl

theorem agrees_newRecord (fields : Bindings Value) (hx : x ≠ .record s.records.size) :
    s.Agrees (s.newRecord fields).2 x := by
  cases x with
  | record cell => exact (getD_push_of_ne s.records (fun h => hx (h ▸ rfl)) fields {}).symm
  | _ => rfl

/-- Making a function leaves all other cells as they are. -/
theorem agrees_newFunction (closure : Closure) (hx : x ≠ .function s.functions.size) :
    s.Agrees (s.newFunction closure).2 x := by
  cases x with
  | function cell =>
      have hCell : cell ≠ s.functions.size := fun h => hx (h ▸ rfl)
      change s.functions[cell]? = (s.functions.push closure)[cell]?
      rw [Array.getElem?_push, if_neg hCell]
  | _ => rfl

theorem agrees_newScope (hx : x ≠ .scope s.scopes.size) : s.Agrees s.newScope.2 x := by
  cases x with
  | scope cell => exact (getD_push_of_ne s.scopes (fun h => hx (h ▸ rfl)) {} {}).symm
  | _ => rfl

theorem agrees_newNamespace (hx : x ≠ .names s.namespaces.size) :
    s.Agrees s.newNamespace.2 x := by
  cases x with
  | names cell => exact (getD_push_of_ne s.namespaces (fun h => hx (h ▸ rfl)) {} {}).symm
  | _ => rfl

/-- Changing one list leaves every other cell as it is. -/
theorem agrees_modifyList {cell : Nat} (change : Array Value → Array Value)
    (hx : x ≠ .list cell) : s.Agrees (s.modifyList cell change) x := by
  cases x with
  | list other =>
      have hCell : cell ≠ other := fun h => hx (congrArg _ h.symm)
      exact (getD_modify_of_ne s.lists hCell change #[]).symm
  | _ => rfl

/-- Changing one record leaves every other cell as it is. -/
theorem agrees_modifyRecord {cell : Nat} (change : Bindings Value → Bindings Value)
    (hx : x ≠ .record cell) : s.Agrees (s.modifyRecord cell change) x := by
  cases x with
  | record other =>
      have hCell : cell ≠ other := fun h => hx (congrArg _ h.symm)
      exact (getD_modify_of_ne s.records hCell change {}).symm
  | _ => rfl

/-- Changing one scope leaves every other cell as it is. -/
theorem agrees_modifyScope {cell : Nat} (change : Bindings Value → Bindings Value)
    (hx : x ≠ .scope cell) : s.Agrees (s.modifyScope cell change) x := by
  cases x with
  | scope other =>
      have hCell : cell ≠ other := fun h => hx (congrArg _ h.symm)
      exact (getD_modify_of_ne s.scopes hCell change {}).symm
  | _ => rfl

/-- Changing the names of one directive leaves every other cell as it is. -/
theorem agrees_modifyNamespace {cell : Nat} (change : Namespace → Namespace)
    (hx : x ≠ .names cell) : s.Agrees (s.modifyNamespace cell change) x := by
  cases x with
  | names other =>
      have hCell : cell ≠ other := fun h => hx (congrArg _ h.symm)
      exact (getD_modify_of_ne s.namespaces hCell change {}).symm
  | _ => rfl

end Store

end Metagen
