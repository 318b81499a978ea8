import Metagen.Proofs.Steps
import Mathlib.Data.List.Forall2

/-! Two runs side by side, of which the second ends well whenever the first does. Nothing is asked
of steps that fail. The second run may also be varied: started from a state that differs a little
from its own it does the same, as long as the variation admits all that the run comes to. -/

namespace Metagen

/-- What is asked of the states of two runs. -/
structure Tandem (State : Type) where
  /-- A state of the first run and one of the second that stand beside each other. -/
  beside : State → State → Prop
  /-- Steps of the second run may lead from one state to the other. -/
  leads : State → State → Prop
  Variation : Type
  /-- A state of the second run, and what it is in the varied run. -/
  varies : Variation → State → State → Prop
  /-- The varied run may come as far as this. -/
  admits : Variation → State → Prop
  refl : ∀ n, leads n n
  trans : ∀ {n n' n''}, leads n n' → leads n' n'' → leads n n''
  admits_of_leads : ∀ {x n n'}, leads n n' → admits x n' → admits x n

namespace Tandem

variable {Failure State α β : Type} {S : Tandem State}

/-- States that are compared, and no variations. -/
def plain (beside : State → State → Prop) : Tandem State where
  beside := beside
  leads _ _ := True
  Variation := Empty
  varies _ _ _ := False
  admits _ _ := False
  refl _ := trivial
  trans _ _ := trivial
  admits_of_leads _ := id

/-- The step ends well with this result in this state, and in a varied run it ends well with the
same result. -/
structure Ends (S : Tandem State) (step : EStateM Failure State α) (n : State) (a : α)
    (n' : State) : Prop where
  ends : step n = .ok a n'
  leads : S.leads n n'
  varied : ∀ x k, S.varies x n k → S.admits x n' → ∃ k', step k = .ok a k' ∧ S.varies x n' k'

namespace Ends

theorem pure (a : α) (n : State) : S.Ends (pure a : EStateM Failure State α) n a n :=
  ⟨rfl, S.refl n, fun _ k hVaries _ => ⟨k, rfl, hVaries⟩⟩

/-- A step that ends well and goes on with one that ends well ends well. -/
theorem bind {first : EStateM Failure State β} {second : β → EStateM Failure State α} {b : β}
    {a : α} {n n' n'' : State} (hFirst : S.Ends first n b n')
    (hSecond : S.Ends (second b) n' a n'') :
    S.Ends (first >>= second) n a n'' := by
  refine ⟨(bind_ok_iff _ _ _ _ _).2 ⟨b, n', hFirst.ends, hSecond.ends⟩,
    S.trans hFirst.leads hSecond.leads, fun x k hVaries hAdmits => ?_⟩
  obtain ⟨k', hBegun, hVaries⟩ :=
    hFirst.varied x k hVaries (S.admits_of_leads hSecond.leads hAdmits)
  obtain ⟨k'', hEnded, hVaries⟩ := hSecond.varied x k' hVaries hAdmits
  exact ⟨k'', (bind_ok_iff _ _ _ _ _).2 ⟨b, k', hBegun, hEnded⟩, hVaries⟩

end Ends

/-- Without variations nothing else is asked. -/
theorem ends_plain {beside : State → State → Prop} {step : EStateM Failure State α} {n n' : State}
    {a : α} (h : step n = .ok a n') : (plain beside).Ends step n a n' :=
  ⟨h, trivial, fun x => Empty.elim x⟩

end Tandem

variable {Failure State α β γ δ : Type}

/-- Whenever the first step ends well, so does the second. -/
def Follows (S : Tandem State) (R : α → β → Prop) (first : EStateM Failure State α)
    (second : EStateM Failure State β) : Prop :=
  ∀ m n, S.beside m n → ∀ a m', first m = .ok a m' →
    ∃ b n', S.Ends second n b n' ∧ S.beside m' n' ∧ R a b

namespace Follows

variable {S : Tandem State} {Q : γ → δ → Prop} {R R' : α → β → Prop}
  {first : EStateM Failure State α} {second : EStateM Failure State β}

/-- Steps of runs without variations. -/
theorem plain {beside : State → State → Prop}
    (h : ∀ m n, beside m n → ∀ a m', first m = .ok a m' →
      ∃ b n', second n = .ok b n' ∧ beside m' n' ∧ R a b) :
    Follows (.plain beside) R first second := by
  intro m n hStates a m' hRun
  obtain ⟨b, n', hSecond, hRest⟩ := h m n hStates a m' hRun
  exact ⟨b, n', Tandem.ends_plain hSecond, hRest⟩

theorem imp (h : Follows S R first second) (hImp : ∀ a b, R a b → R' a b) :
    Follows S R' first second := by
  intro m n hStates a m' hRun
  obtain ⟨b, n', hSecond, hNext, hResults⟩ := h m n hStates a m' hRun
  exact ⟨b, n', hSecond, hNext, hImp a b hResults⟩

theorem pure {a : α} {b : β} (h : R a b) :
    Follows S R (pure a : EStateM Failure State α) (pure b) := by
  intro m n hStates c m' hRun
  obtain ⟨rfl, rfl⟩ := (pure_ok_iff _ _ _ _).1 hRun
  exact ⟨b, n, .pure b n, hStates, h⟩

theorem throw (failure : Failure) : Follows S R (throw failure) second := by
  intro m n hStates a m' hRun
  exact ((throw_ok_iff _ _ _ _).1 hRun).elim

/-- Steps that follow each other may be put one behind the other if what comes next follows for
every pair of results. -/
theorem bind {first : EStateM Failure State γ} {second : EStateM Failure State δ}
    {next : γ → EStateM Failure State α} {next' : δ → EStateM Failure State β}
    (h : Follows S Q first second) (hNext : ∀ c d, Q c d → Follows S R (next c) (next' d)) :
    Follows S R (first >>= next) (second >>= next') := by
  intro m n hStates a m'' hRun
  obtain ⟨c, m', hFirst, hRest⟩ := (bind_ok_iff _ _ _ _ _).1 hRun
  obtain ⟨d, n', hSecond, hMiddle, hResults⟩ := h m n hStates c m' hFirst
  obtain ⟨b, n'', hLast, hEnd, hResult⟩ := hNext c d hResults m' n' hMiddle a m'' hRest
  exact ⟨b, n'', hSecond.bind hLast, hEnd, hResult⟩

/-- Results that are the same on both sides. -/
theorem bindSame {first second : EStateM Failure State γ} {next : γ → EStateM Failure State α}
    {next' : γ → EStateM Failure State β} (h : Follows S Eq first second)
    (hNext : ∀ c, Follows S R (next c) (next' c)) :
    Follows S R (first >>= next) (second >>= next') := by
  refine h.bind ?_
  rintro c _ rfl
  exact hNext c

theorem map {first : EStateM Failure State γ} {second : EStateM Failure State δ} {f : γ → α}
    {f' : δ → β} (h : Follows S Q first second) (hResult : ∀ c d, Q c d → R (f c) (f' d)) :
    Follows S R (f <$> first) (f' <$> second) := by
  rw [map_eq_pure_bind, map_eq_pure_bind]
  exact h.bind fun c d hPair => pure (hResult c d hPair)

theorem discard (h : Follows S R first second) : Follows S Eq (discard first) (discard second) :=
  h.map fun _ _ _ => rfl

/-- A condition that is decided alike on both sides keeps steps following each other. -/
theorem ite {p : Prop} [Decidable p] {other : EStateM Failure State α}
    {other' : EStateM Failure State β} (h : Follows S R first second)
    (hOther : Follows S R other other') :
    Follows S R (if p then first else other) (if p then second else other') := by
  split
  · exact h
  · exact hOther

/-- Steps for related items, one after the other, give results that are related one by one. -/
theorem mapM {P : γ → δ → Prop} {items : List γ} {items' : List δ}
    (hItems : List.Forall₂ P items items') {f : γ → EStateM Failure State α}
    {f' : δ → EStateM Failure State β} (h : ∀ c d, P c d → Follows S R (f c) (f' d)) :
    Follows S (List.Forall₂ R) (items.mapM f) (items'.mapM f') := by
  induction hItems with
  | nil =>
      rw [List.mapM_nil, List.mapM_nil]
      exact pure .nil
  | cons hPair _ ih =>
      rw [List.mapM_cons, List.mapM_cons]
      refine (h _ _ hPair).bind fun a b hResult => ih.bind fun results results' hResults => ?_
      exact pure (.cons hResult hResults)

/-- The same items on both sides. -/
theorem mapMEach {f : γ → EStateM Failure State α} {f' : γ → EStateM Failure State β}
    (h : ∀ c, Follows S R (f c) (f' c)) (items : List γ) :
    Follows S (List.Forall₂ R) (items.mapM f) (items.mapM f') := by
  refine mapM (P := Eq) (List.forall₂_same.2 fun _ _ => rfl) ?_
  rintro c _ rfl
  exact h c

/-- Going through the same items with related results keeps them related to the end. -/
theorem foldlM {items : List δ} {f : α → δ → EStateM Failure State α}
    {f' : β → δ → EStateM Failure State β} {a : α} {b : β} (hStart : R a b)
    (h : ∀ item a b, R a b → Follows S R (f a item) (f' b item)) :
    Follows S R (items.foldlM f a) (items.foldlM f' b) := by
  induction items generalizing a b with
  | nil =>
      rw [List.foldlM_nil, List.foldlM_nil]
      exact pure hStart
  | cons item rest ih =>
      rw [List.foldlM_cons, List.foldlM_cons]
      exact (h item a b hStart).bind fun c d hPair => ih hPair

/-- The state itself is what the step gives. -/
theorem get {beside : State → State → Prop} :
    Follows (.plain beside) beside (MonadState.get : EStateM Failure State State)
      MonadState.get := by
  refine plain fun m n hStates a m' hRun => ?_
  cases hRun
  exact ⟨n, n, rfl, hStates, hStates⟩

/-- A change follows another one if it keeps states beside each other. -/
theorem modify {beside : State → State → Prop} {change change' : State → State}
    (h : ∀ m n, beside m n → beside (change m) (change' n)) :
    Follows (.plain beside) Eq (modify change : EStateM Failure State Unit) (modify change') := by
  refine plain fun m n hStates a m' hRun => ?_
  cases hRun
  exact ⟨(), change' n, rfl, h m n hStates, rfl⟩

end Follows

theorem forall₂_eq_of_forall₂ {xs ys : List α} (h : List.Forall₂ Eq xs ys) : xs = ys := by
  rwa [List.forall₂_eq_eq_eq] at h

end Metagen
