import Metagen.Eval.Operators
import Metagen.Proofs.Eval.Functions

/-! Operators keep what is guarded: they make lists of what their operands hold, and change the
containers that their operands are. -/

namespace Metagen

open Eval Script

namespace Guard.Safe

variable {g : Guard} {s : Store}

theorem ofExcept {result : Except Fault Value} (h : ∀ v, result = .ok v → v.cell? = none) :
    g.Safe s (Operation.ofExcept result) g.FreeValue := by
  cases result with
  | ok v => exact .pure fun _ _ => freeValue_of_cell?_eq_none (h v rfl)
  | error fault => exact throw fault

theorem newList {items : Array Value} (h : g.FreeValues s items.toList) :
    g.Safe s (Operation.newList items) g.FreeValue := by
  intro t hReached
  obtain ⟨hAdvances, hFree⟩ := hReached.keeps.newList (h.mono hReached.grown)
  exact ⟨.ofStore hAdvances, hFree⟩

/-- A result of integer arithmetic that fits in a word is an integer and no cell. -/
theorem cell?_of_fitted {op : BinaryOp} {n : Int} {v : Value} (h : fitted op n = .ok v) :
    v.cell? = none := by
  unfold fitted at h
  split at h
  · obtain rfl := Except.ok.inj h
    rfl
  · cases h

/-- What arithmetic of integers gives is no cell. -/
theorem cell?_of_intArithmetic {op : BinaryOp} {a b : Int64} {v : Value}
    (h : intArithmetic op a b = .ok v) : v.cell? = none := by
  unfold intArithmetic at h
  split at h
  · exact cell?_of_fitted h
  · exact cell?_of_fitted h
  · exact cell?_of_fitted h
  · split at h
    · cases h
    · exact cell?_of_fitted h
  · split at h
    · cases h
    · cases hQuotient : fitted _ (a.toInt.tdiv b.toInt) with
      | error fault =>
          rw [hQuotient] at h
          cases h
      | ok quotient =>
          rw [hQuotient] at h
          exact cell?_of_fitted h
  · cases h

/-- What arithmetic of floats gives is no cell. -/
theorem cell?_of_floatArithmetic {op : BinaryOp} {a b v : Value}
    (h : floatArithmetic op a b = .ok v) : v.cell? = none := by
  unfold floatArithmetic at h
  split at h
  · split at h
    · obtain rfl := Except.ok.inj h
      rfl
    · obtain rfl := Except.ok.inj h
      rfl
    · obtain rfl := Except.ok.inj h
      rfl
    · split at h
      · cases h
      · obtain rfl := Except.ok.inj h
        rfl
    · split at h
      · cases h
      · obtain rfl := Except.ok.inj h
        rfl
    · cases h
  · cases h

/-- Repeating a list of free values makes no value that is not free. -/
theorem freeValues_repeat {items : Array Value} (h : g.FreeValues s items.toList) (n : Nat) :
    g.FreeValues s (n.repeat (· ++ items) #[]).toList := by
  induction n with
  | zero => simp [Nat.repeat]
  | succ n ih =>
      rw [Nat.repeat, Array.toList_append, freeValues_append]
      exact ⟨ih, h⟩

/-- Arithmetic of lists makes new lists of free values; every other result is no cell. -/
theorem arithmetic (op : BinaryOp) {a b : Value} (ha : g.FreeValue s a) (hb : g.FreeValue s b) :
    g.Safe s (Eval.arithmetic op a b) g.FreeValue := by
  unfold Eval.arithmetic
  split
  · exact .pure fun _ _ => freeValue_of_cell?_eq_none rfl
  · refine get.bind fun m t hGrown hm => ?_
    obtain ⟨rfl, hReached⟩ := hm
    apply newList
    rw [Array.toList_append, freeValues_append]
    exact ⟨hReached.keeps.listAt (freeValue_list.1 (ha.mono hGrown)),
      hReached.keeps.listAt (freeValue_list.1 (hb.mono hGrown))⟩
  · split
    · exact .pure fun _ _ => freeValue_of_cell?_eq_none rfl
    · exact throw _
  · refine get.bind fun m t hGrown hm => ?_
    obtain ⟨rfl, hReached⟩ := hm
    have hItems := hReached.keeps.listAt (freeValue_list.1 (ha.mono hGrown))
    dsimp only
    split
    · apply newList
      split
      · exact freeValues_nil
      · exact freeValues_repeat hItems _
    · exact throw _
  · exact ofExcept fun _ => cell?_of_intArithmetic
  · exact ofExcept fun _ => cell?_of_floatArithmetic

theorem comparison (a b : Value) (holds : Ordering → Bool) :
    g.Safe s (Eval.comparison a b holds) g.FreeValue := by
  apply ofExcept
  intro v h
  cases hOrder : compareValues a b with
  | error fault =>
      rw [hOrder] at h
      cases h
  | ok order =>
      rw [hOrder] at h
      obtain rfl := Except.ok.inj h
      rfl

/-- Every operator gives a free value for free operands. -/
theorem applyBinary (op : BinaryOp) {a b : Value} (ha : g.FreeValue s a) (hb : g.FreeValue s b) :
    g.Safe s (Eval.applyBinary op a b) g.FreeValue := by
  cases op with
  | eq => exact get.bind fun _ _ _ _ => .pure fun _ _ => freeValue_of_cell?_eq_none rfl
  | notEq => exact get.bind fun _ _ _ _ => .pure fun _ _ => freeValue_of_cell?_eq_none rfl
  | less => exact comparison a b _
  | greater => exact comparison a b _
  | lessEq => exact comparison a b _
  | greaterEq => exact comparison a b _
  | _ => exact arithmetic _ ha hb

theorem negate (v : Value) : g.Safe s (Eval.negate v) g.FreeValue := by
  cases v with
  | int n =>
      rw [Eval.negate]
      split
      · exact .pure fun _ _ => freeValue_of_cell?_eq_none rfl
      · exact throw _
  | float x => exact .pure fun _ _ => freeValue_of_cell?_eq_none rfl
  | _ => exact throw _

/-- What a record holds under a name. -/
theorem fieldAt {cell : Nat} (hCell : g.Free s (.record cell)) (name : String) (fault : Fault) :
    g.Safe s (do
      match ((← MonadState.get).recordAt cell).get? name with
      | some v => return v
      | none => MonadExcept.throw fault : Operation) g.FreeValue := by
  refine get.bind fun m t hGrown hm => ?_
  obtain ⟨rfl, hReached⟩ := hm
  split
  · next hField =>
    have hFree := (hReached.keeps.recordAt (hCell.mono hGrown)).get? hField
    exact .pure fun _ hLater => hFree.mono hLater
  · exact throw _

theorem fieldOf {object : Value} (hObject : g.FreeValue s object) (field : String) :
    g.Safe s (Eval.fieldOf object field) g.FreeValue := by
  cases object with
  | record cell => exact fieldAt (freeValue_record.1 hObject) field _
  | _ => exact throw _

/-- The item of a free list, or the field of a free record, is free. -/
theorem itemOf {object : Value} (hObject : g.FreeValue s object) (index : Value) :
    g.Safe s (Eval.itemOf object index) g.FreeValue := by
  unfold Eval.itemOf
  split
  · refine get.bind fun m t hGrown hm => ?_
    obtain ⟨rfl, hReached⟩ := hm
    have hItems := hReached.keeps.listAt (freeValue_list.1 (hObject.mono hGrown))
    dsimp only
    split
    · next hItem =>
      obtain ⟨i, -, hItem⟩ := Option.bind_eq_some_iff.1 hItem
      have hFree := hItems _ (Array.mem_toList_iff.2 (Array.mem_of_getElem? hItem))
      exact .pure fun _ hLater => hFree.mono hLater
    · exact throw _
  · split
    · exact .pure fun _ _ => freeValue_of_cell?_eq_none rfl
    · exact throw _
  · exact fieldAt (freeValue_record.1 hObject) _ _
  · exact throw _

/-- Giving a field of a free record a free value keeps what is guarded. -/
theorem setField {object v : Value} (hObject : g.FreeValue s object) (hv : g.FreeValue s v)
    (field : String) : g.Safe s (Eval.setField object field v) Plain := by
  cases object with
  | record cell =>
      apply modify
      intro t hReached
      have hKeeps : g.Keeps t := hReached.keeps
      have hFree := freeValue_record.1 (hObject.mono hReached.grown)
      have hNew := (hKeeps.recordAt hFree).insert (hv.mono hReached.grown) field
      exact .ofStore (hKeeps.modifyRecord hFree hNew)
  | _ => exact throw _

/-- Giving an item of a free list or a field of a free record a free value keeps what is guarded. -/
theorem setItem {object v : Value} (hObject : g.FreeValue s object) (hv : g.FreeValue s v)
    (index : Value) : g.Safe s (Eval.setItem object index v) Plain := by
  unfold Eval.setItem
  split
  · refine get.bind fun m t hGrown hm => ?_
    split
    · apply modify
      intro u hReached
      have hKeeps : g.Keeps u := hReached.keeps
      have hLater := hGrown.trans hReached.grown
      have hFree := freeValue_list.1 (hObject.mono hLater)
      refine .ofStore (hKeeps.modifyList hFree ?_)
      intro w hw
      rcases Array.mem_or_eq_of_mem_setIfInBounds (Array.mem_toList_iff.1 hw) with hOld | rfl
      · exact hKeeps.listAt hFree w (Array.mem_toList_iff.2 hOld)
      · exact hv.mono hLater
    · exact throw _
  · exact setField hObject hv _
  · exact throw _

/-- What a name is bound to in free scopes is free, and builtin functions always are. -/
theorem lookUp {env : Env} (hEnv : g.FreeEnv s env) (name : String) :
    g.Safe s (Eval.lookUp env name) g.FreeValue := by
  unfold Eval.lookUp
  refine get.bind fun m t hGrown hm => ?_
  obtain ⟨rfl, hReached⟩ := hm
  split
  · next hFound =>
    have hFree := hReached.keeps.envGet? (hEnv.mono hGrown) hFound
    exact .pure fun _ hLater => hFree.mono hLater
  · split
    · exact .pure fun _ _ => freeValue_of_cell?_eq_none rfl
    · split
      · exact .pure fun _ _ => freeValue_of_cell?_eq_none rfl
      · exact throw _

end Guard.Safe

end Metagen
