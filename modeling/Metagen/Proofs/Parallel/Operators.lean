import Metagen.Proofs.Eval.Operators
import Metagen.Proofs.Parallel.Functions

/-! Operators, side by side. -/

namespace Metagen

open Eval Script

namespace Pairing

variable {g : Pairing} {v w v' w' : Value}

theorem Items.repeat {xs ys : Array Value} (h : g.Items xs ys) (n : Nat) :
    g.Items (n.repeat (· ++ xs) #[]) (n.repeat (· ++ ys) #[]) := by
  induction n with
  | zero => exact .nil
  | succ n ih => exact ih.append h

/-- Putting paired values at an index keeps items paired. -/
theorem Items.setIfInBounds {xs ys : Array Value} (h : g.Items xs ys) (i : Nat)
    (hv : g.Values v w) : g.Items (xs.setIfInBounds i v) (ys.setIfInBounds i w) := by
  unfold Items at h ⊢
  rw [Array.toList_setIfInBounds, Array.toList_setIfInBounds]
  generalize xs.toList = vs, ys.toList = ws at h
  induction h generalizing i with
  | nil => exact .nil
  | cons hPair hRest ih =>
      cases i with
      | zero => exact .cons hv hRest
      | succ i => exact .cons hPair (ih i)

abbrev Operations (g : Pairing) (first second : Operation) : Prop :=
  Follows (.plain g.Stores) g.Values first second

namespace Operations

theorem ofPlain {result : Except Fault Value} (h : ∀ v, result = .ok v → v.cell? = none) :
    g.Operations (Operation.ofExcept result) (Operation.ofExcept result) := by
  cases result with
  | ok v => exact .pure (values_of_plain (h v rfl))
  | error fault => exact .throw fault

theorem newList {items items' : Array Value} (h : g.Items items items') :
    g.Operations (Operation.newList items) (Operation.newList items') := by
  refine .plain fun s t hStores v s' hRun => ?_
  cases hRun
  exact ⟨_, _, rfl, hStores.newList h⟩

theorem floatArithmetic_eq (op : BinaryOp) (hv : g.Values v w) (hv' : g.Values v' w') :
    floatArithmetic op v v' = floatArithmetic op w w' := by
  unfold floatArithmetic unsupported
  rw [hv.asFloat?_eq, hv'.asFloat?_eq, hv.typeName_eq, hv'.typeName_eq]

theorem float (op : BinaryOp) (hv : g.Values v w) (hv' : g.Values v' w') :
    g.Operations (Operation.ofExcept (floatArithmetic op v v'))
      (Operation.ofExcept (floatArithmetic op w w')) := by
  rw [floatArithmetic_eq op hv hv']
  exact ofPlain fun _ => Guard.Safe.cell?_of_floatArithmetic

/-- Only the types of the operands tell which rule holds. -/
theorem arithmetic (op : BinaryOp) (hv : g.Values v w) (hv' : g.Values v' w') :
    g.Operations (arithmetic op v v') (arithmetic op w w') := by
  unfold Eval.arithmetic
  split
  · cases hv
    cases hv'
    exact .pure (.text _)
  · cases hv with
    | list h =>
        cases hv' with
        | list h' =>
            refine Follows.get.bind fun s t hStores => newList ?_
            exact (hStores.listAt h).append (hStores.listAt h')
  · cases hv
    cases hv'
    dsimp only
    split
    · exact .pure (.text _)
    · exact .throw _
  · cases hv with
    | list h =>
        cases hv'
        refine Follows.get.bind fun s t hStores => ?_
        have hItems := hStores.listAt h
        dsimp only
        rw [hItems.size_eq, hItems.isEmpty_eq]
        split
        · apply newList
          split
          · exact .nil
          · exact hItems.repeat _
        · exact .throw _
  · cases hv
    cases hv'
    cases op <;> exact ofPlain fun _ => Guard.Safe.cell?_of_intArithmetic
  next hInts hTexts hLists hText hList =>
    have hSecond : Eval.arithmetic op w w' = Operation.ofExcept (floatArithmetic op w w') := by
      unfold Eval.arithmetic
      split
      · cases hv
        cases hv'
        exact (hTexts _ _ rfl rfl rfl).elim
      · cases hv
        cases hv'
        exact (hLists _ _ rfl rfl rfl).elim
      · cases hv
        cases hv'
        exact (hText _ _ rfl rfl rfl).elim
      · cases hv
        cases hv'
        exact (hList _ _ rfl rfl rfl).elim
      · cases hv
        cases hv'
        exact (hInts _ _ rfl rfl).elim
      · rfl
    unfold Eval.arithmetic at hSecond
    rw [hSecond]
    exact float op hv hv'

/-- Paired values are in the same order, so that asking something of it gives the same answer. -/
theorem comparison (hv : g.Values v w) (hv' : g.Values v' w') (holds : Ordering → Bool) :
    g.Operations (comparison v v' holds) (comparison w w' holds) := by
  unfold Eval.comparison
  rw [compareValues_eq hv hv']
  apply ofPlain
  intro x hx
  cases hOrder : compareValues w w' with
  | error fault =>
      rw [hOrder] at hx
      cases hx
  | ok order =>
      rw [hOrder] at hx
      obtain rfl := Except.ok.inj hx
      rfl

/-- Every operator gives paired values for paired operands; only arithmetic of lists makes a new
cell. -/
theorem applyBinary (op : BinaryOp) (hv : g.Values v w) (hv' : g.Values v' w') :
    g.Operations (applyBinary op v v') (applyBinary op w w') := by
  cases op with
  | eq =>
      refine Follows.get.bind fun s t hStores => ?_
      rw [hStores.same_eq hv hv']
      exact .pure (.bool _)
  | notEq =>
      refine Follows.get.bind fun s t hStores => ?_
      rw [hStores.same_eq hv hv']
      exact .pure (.bool _)
  | less => exact comparison hv hv' _
  | greater => exact comparison hv hv' _
  | lessEq => exact comparison hv hv' _
  | greaterEq => exact comparison hv hv' _
  | _ => exact arithmetic _ hv hv'

/-- Numbers stand for themselves, and so do their negatives. -/
theorem negate (hv : g.Values v w) : g.Operations (negate v) (negate w) := by
  cases hv with
  | int n =>
      rw [Eval.negate]
      split
      · exact .pure (.int _)
      · exact .throw _
  | float x => exact .pure (.float _)
  | _ => exact .throw _

/-- A value that may be missing. -/
theorem found {a b : Option Value} (fault second : Fault) : Option.Rel g.Values a b →
    g.Operations (match a with
      | some v => Pure.pure v
      | none => MonadExcept.throw fault) (match b with
      | some w => Pure.pure w
      | none => MonadExcept.throw second) := by
  rintro (hv | _)
  · exact .pure hv
  · exact .throw _

/-- The field of paired values is paired, be it one of a record or a method. -/
theorem fieldOf (hv : g.Values v w) (field : String) :
    g.Operations (fieldOf v field) (fieldOf w field) := by
  cases hv with
  | record h =>
      refine Follows.get.bind fun s t hStores => ?_
      exact found _ _ ((hStores.recordAt h).bound field)
  | _ => exact .throw _

/-- The item of a list, the character of a text or the field of a record is paired on both sides. -/
theorem itemOf (hv : g.Values v w) (hv' : g.Values v' w') :
    g.Operations (itemOf v v') (itemOf w w') := by
  cases hv with
  | list h =>
      cases hv' with
      | int n =>
          refine Follows.get.bind fun s t hStores => ?_
          have hItems := hStores.listAt h
          dsimp only
          rw [hItems.size_eq]
          cases Value.place? n.toInt (t.listAt _).size with
          | none => exact .throw _
          | some i => exact found _ _ (hItems.getElem? i)
      | _ => exact .throw _
  | text x =>
      cases hv' with
      | int n =>
          unfold Eval.itemOf
          dsimp only
          split
          · exact .pure (.text _)
          · exact .throw _
      | _ => exact .throw _
  | record h =>
      cases hv' with
      | text key =>
          refine Follows.get.bind fun s t hStores => ?_
          exact found _ _ ((hStores.recordAt h).bound key)
      | _ => exact .throw _
  | _ => cases hv' <;> exact .throw _

/-- Giving a field of paired records paired values keeps the stores paired. -/
theorem setField {x y : Value} (hv : g.Values v w) (field : String) (hx : g.Values x y) :
    Follows (.plain g.Stores) Eq (setField v field x) (setField w field y) := by
  cases hv with
  | record h =>
      refine .modify fun s t hStores => ?_
      exact hStores.modifyRecord h fun _ _ hFields => hFields.insert field hx
  | _ => exact .throw _

/-- Giving an item or a field another value changes paired cells in the same way. -/
theorem setItem {x y : Value} (hv : g.Values v w) (hv' : g.Values v' w') (hx : g.Values x y) :
    Follows (.plain g.Stores) Eq (setItem v v' x) (setItem w w' y) := by
  cases hv with
  | list h =>
      cases hv' with
      | int n =>
          refine Follows.get.bind fun s t hStores => ?_
          rw [(hStores.listAt h).size_eq]
          split
          · refine .modify fun s t hStores => ?_
            exact hStores.modifyList h fun _ _ hItems => hItems.setIfInBounds _ hx
          · exact .throw _
      | _ => exact .throw _
  | record h =>
      cases hv' with
      | text key => exact setField (.record h) key hx
      | _ => exact .throw _
  | _ => cases hv' <;> exact .throw _

/-- A name that is bound in paired scopes is bound to paired values; builtin functions are paired
with themselves. -/
theorem lookUp {env env' : Env} (hEnv : g.Envs env env') (name : String) :
    g.Operations (lookUp env name) (lookUp env' name) := by
  refine Follows.get.bind fun s t hStores => ?_
  rcases rel_cases (hStores.envGet? hEnv name) with ⟨hx, hy⟩ | ⟨v, w, hx, hy, hv⟩
  · simp only [hx, hy]
    split
    · exact .pure .generator
    · split
      · exact .pure (.builtin _)
      · exact .throw _
  · simp only [hx, hy]
    exact .pure hv

end Operations

end Pairing

end Metagen
