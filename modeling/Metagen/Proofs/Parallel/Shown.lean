import Metagen.Eval.Functions
import Metagen.Proofs.Parallel.Pairing

/-! What scripts can tell of values is the same for paired values: their types, their truth, their
texts, and how they compare. The numbers of cells show in none of it. -/

namespace Metagen

variable {α β γ : Type}

theorem map_eq_of_forall₂ {R : α → β → Prop} {f : α → γ} {f' : β → γ} {xs : List α} {ys : List β}
    (h : List.Forall₂ R xs ys) (hMap : ∀ x y, R x y → f x = f' y) : xs.map f = ys.map f' := by
  induction h with
  | nil => rfl
  | cons hPair _ ih => rw [List.map_cons, List.map_cons, hMap _ _ hPair, ih]

/-- Steps that may fail and agree for related items agree for lists of them, and they fail for the
same item. -/
theorem mapM_eq_of_forall₂ {Failure : Type} {R : α → β → Prop} {f : α → Except Failure γ}
    {f' : β → Except Failure γ} {xs : List α} {ys : List β} (h : List.Forall₂ R xs ys)
    (hMap : ∀ x y, R x y → f x = f' y) : xs.mapM f = ys.mapM f' := by
  induction h with
  | nil => rfl
  | cons hPair _ ih => rw [List.mapM_cons, List.mapM_cons, hMap _ _ hPair, ih]

theorem all_eq_of_forall₂ {R : α → β → Prop} {f : α → Bool} {f' : β → Bool} {xs : List α}
    {ys : List β} (h : List.Forall₂ R xs ys) (hAll : ∀ x y, R x y → f x = f' y) :
    xs.all f = ys.all f' := by
  induction h with
  | nil => rfl
  | cons hPair _ ih => rw [List.all_cons, List.all_cons, hAll _ _ hPair, ih]

theorem isEmpty_eq_of_forall₂ {R : α → β → Prop} {xs : List α} {ys : List β}
    (h : List.Forall₂ R xs ys) : xs.isEmpty = ys.isEmpty := by
  cases h <;> rfl

namespace Pairing

open Value

variable {g : Pairing} {s t : Store} {v w v' w' : Value}

theorem Values.typeName_eq (h : g.Values v w) : v.typeName = w.typeName := by
  cases h <;> rfl

theorem Values.asFloat?_eq (h : g.Values v w) : v.asFloat? = w.asFloat? := by
  cases h <;> rfl

theorem Items.size_eq {xs ys : Array Value} (h : g.Items xs ys) : xs.size = ys.size := by
  rw [← Array.length_toList, ← Array.length_toList, h.length_eq]

theorem Items.isEmpty_eq {xs ys : Array Value} (h : g.Items xs ys) : xs.isEmpty = ys.isEmpty := by
  rw [← Array.isEmpty_toList, ← Array.isEmpty_toList, isEmpty_eq_of_forall₂ h]

theorem Fields.isEmpty_eq {b c : Bindings Value} (h : g.Fields b c) : b.isEmpty = c.isEmpty :=
  isEmpty_eq_of_forall₂ h

namespace Stores

theorem truthy_eq (h : g.Stores s t) (hv : g.Values v w) : v.truthy s = w.truthy t := by
  cases hv with
  | list hPair => rw [truthy, truthy, (h.listAt hPair).isEmpty_eq]
  | record hPair => rw [truthy, truthy, (h.recordAt hPair).isEmpty_eq]
  | _ => rfl

/-- A value inside of another one is shown the same on both sides, in quotes if it is a text. -/
theorem nested_eq {render render' : Value → String}
    (hRender : ∀ v w, g.Values v w → render v = render' w) (hv : g.Values v w) :
    nested render v = nested render' w := by
  cases hv with
  | text x => rfl
  | _ => exact hRender _ _ (by constructor <;> assumption)

/-- Paired values are shown with the same text at any depth, as their cells hold what is paired. -/
theorem renderTo_eq (h : g.Stores s t) (depth : Nat) (hv : g.Values v w) :
    renderTo s depth v = renderTo t depth w := by
  induction depth generalizing v w with
  | zero => rfl
  | succ depth ih =>
      have hNested : ∀ v w, g.Values v w →
          nested (renderTo s depth) v = nested (renderTo t depth) w :=
        fun v w => nested_eq fun _ _ => ih
      cases hv with
      | list hPair => rw [renderTo, renderTo, map_eq_of_forall₂ (h.listAt hPair) hNested]
      | record hPair =>
          have hFields := map_eq_of_forall₂ (h.recordAt hPair) fun x y hEntry =>
              show x.1 ++ ": " ++ nested (renderTo s depth) x.2 =
                y.1 ++ ": " ++ nested (renderTo t depth) y.2 by
            rw [hEntry.1, hNested _ _ hEntry.2]
          exact congrArg (fun parts => "\x7b" ++ ", ".intercalate parts ++ "\x7d") hFields
      | function hPair => rw [renderTo, renderTo, h.functionLabel_eq hPair]
      | _ => rfl

theorem render_eq (h : g.Stores s t) (hv : g.Values v w) : v.render s = w.render t :=
  h.renderTo_eq maxNesting hv

theorem renderNested_eq (h : g.Stores s t) (hv : g.Values v w) :
    v.renderNested s = w.renderNested t := nested_eq (fun _ _ => h.render_eq) hv

/-- Paired values have the same C text at any depth, or none for the same reason. -/
theorem cTextTo_eq (h : g.Stores s t) (depth : Nat) (hv : g.Values v w) :
    cTextTo s depth v = cTextTo t depth w := by
  induction depth generalizing v w with
  | zero => rfl
  | succ depth ih =>
      cases hv with
      | list hPair =>
          rw [cTextTo, cTextTo, mapM_eq_of_forall₂ (h.listAt hPair) fun _ _ => ih]
      | record hPair =>
          have hFields := mapM_eq_of_forall₂ (h.recordAt hPair) fun x y hEntry =>
              show (do return "." ++ x.1 ++ " = " ++ (← cTextTo s depth x.2) : Except _ _) =
                (do return "." ++ y.1 ++ " = " ++ (← cTextTo t depth y.2)) by
            rw [hEntry.1, ih hEntry.2]
          exact congrArg (initializer <$> ·) hFields
      | _ => rfl

theorem cText_eq (h : g.Stores s t) (hv : g.Values v w) : v.cText s = w.cText t :=
  h.cTextTo_eq maxNesting hv

theorem beq_eq_of_pairs {c : Counterparts} {i j k l : Nat} (h : c.pairs i j) (h' : c.pairs k l) :
    (i == k) = (j == l) := by
  rw [Bool.eq_iff_iff, beq_iff_eq, beq_iff_eq]
  exact Counterparts.eq_iff_eq h h'

/-- Comparing paired lists item by item gives the same answer. -/
theorem sameItems_eq {same same' : Value → Value → Bool}
    (hSame : ∀ v w, g.Values v w → ∀ v' w', g.Values v' w' → same v v' = same' w w')
    {vs ws vs' ws' : List Value} (h : List.Forall₂ g.Values vs ws)
    (h' : List.Forall₂ g.Values vs' ws') : sameItems same vs vs' = sameItems same' ws ws' := by
  induction h generalizing vs' ws' with
  | nil => cases h' <;> rfl
  | cons hPair _ ih =>
      cases h' with
      | nil => rfl
      | cons hPair' hRest =>
          rw [sameItems, sameItems, hSame _ _ hPair _ _ hPair', ih hRest]

/-- Comparing paired records field by field gives the same answer. -/
theorem sameFields_eq {same same' : Value → Value → Bool}
    (hSame : ∀ v w, g.Values v w → ∀ v' w', g.Values v' w' → same v v' = same' w w')
    {b c b' c' : Bindings Value} (h : g.Fields b c) (h' : g.Fields b' c') :
    sameFields same b b' = sameFields same' c c' := by
  unfold sameFields
  rw [h.size_eq, h'.size_eq]
  refine congrArg _ (all_eq_of_forall₂ h ?_)
  rintro ⟨n, x⟩ ⟨n', y⟩ ⟨rfl, hValue⟩
  dsimp only
  rcases rel_cases (h'.bound n) with ⟨hx, hy⟩ | ⟨v, w, hx, hy, hOther⟩
  · rw [hx, hy]
  · rw [hx, hy]
    exact hSame _ _ hValue _ _ hOther

/-- Whether two values are equal does not change when both are replaced by paired ones. -/
theorem sameTo_eq (h : g.Stores s t) (depth : Nat) (hv : g.Values v w) (hv' : g.Values v' w') :
    sameTo s depth v v' = sameTo t depth w w' := by
  induction depth generalizing v w v' w' with
  | zero => rfl
  | succ depth ih =>
      have hSame : ∀ v w, g.Values v w → ∀ v' w', g.Values v' w' →
          sameTo s depth v v' = sameTo t depth w w' := fun _ _ hv _ _ hv' => ih hv hv'
      cases hv with
      | list hPair =>
          cases hv' with
          | list hPair' =>
              rw [sameTo, sameTo, beq_eq_of_pairs hPair hPair',
                sameItems_eq hSame (h.listAt hPair) (h.listAt hPair')]
          | _ => rfl
      | record hPair =>
          cases hv' with
          | record hPair' =>
              rw [sameTo, sameTo, beq_eq_of_pairs hPair hPair',
                sameFields_eq hSame (h.recordAt hPair) (h.recordAt hPair')]
          | _ => rfl
      | function hPair =>
          cases hv' with
          | function hPair' => rw [sameTo, sameTo, beq_eq_of_pairs hPair hPair']
          | _ => rfl
      | _ => cases hv' <;> rfl

theorem same_eq (h : g.Stores s t) (hv : g.Values v w) (hv' : g.Values v' w') :
    v.same s v' = w.same t w' := h.sameTo_eq maxNesting hv hv'

end Stores

theorem order_eq (hv : g.Values v w) (hv' : g.Values v' w') : v.order v' = w.order w' := by
  cases hv <;> cases hv' <;> rfl

/-- The order of two values, or that they have none, does not change when both are replaced by
paired ones. -/
theorem compareValues_eq (hv : g.Values v w) (hv' : g.Values v' w') :
    Eval.compareValues v v' = Eval.compareValues w w' := by
  have hFault : Eval.unorderedFault v v' = Eval.unorderedFault w w' := by
    funext why
    cases why with
    | types => rw [Eval.unorderedFault, Eval.unorderedFault, hv.typeName_eq, hv'.typeName_eq]
    | notANumber => rfl
  rw [Eval.compareValues, Eval.compareValues, order_eq hv hv', hFault]

end Pairing

end Metagen
