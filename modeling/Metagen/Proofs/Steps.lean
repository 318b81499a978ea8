/-! Steps that change a state and may fail: what a sequence of steps has done when it is done, and
what steps leave as it is. -/

namespace Metagen

variable {Failure State Result Next View : Type}

/-- A sequence succeeds just when both parts do, the second from where the first has come. -/
theorem bind_ok_iff (first : EStateM Failure State Result)
    (second : Result → EStateM Failure State Next) (s t : State) (b : Next) :
    (first >>= second) s = .ok b t ↔ ∃ a r, first s = .ok a r ∧ second a r = .ok b t := by
  change EStateM.bind first second s = .ok b t ↔ _
  unfold EStateM.bind
  cases first s with
  | ok a r =>
      constructor
      · intro h
        exact ⟨a, r, rfl, h⟩
      · rintro ⟨_, _, ⟨⟩, h⟩
        exact h
  | error e r => simp

theorem pure_ok_iff (a b : Result) (s t : State) :
    (pure a : EStateM Failure State Result) s = .ok b t ↔ a = b ∧ s = t := by
  change EStateM.Result.ok a s = .ok b t ↔ _
  simp

theorem throw_ok_iff (e : Failure) (b : Result) (s t : State) :
    (throw e : EStateM Failure State Result) s = .ok b t ↔ False := by
  change EStateM.Result.error e s = .ok b t ↔ _
  simp

/-- A sequence fails with one of its parts. -/
theorem bind_error_iff (first : EStateM Failure State Result)
    (second : Result → EStateM Failure State Next) (s t : State) (e : Failure) :
    (first >>= second) s = .error e t ↔
      first s = .error e t ∨ ∃ a r, first s = .ok a r ∧ second a r = .error e t := by
  change EStateM.bind first second s = .error e t ↔ _
  unfold EStateM.bind
  cases first s with
  | ok a r =>
      constructor
      · intro h
        exact .inr ⟨a, r, rfl, h⟩
      · rintro (hFirst | ⟨_, _, ⟨⟩, h⟩)
        · cases hFirst
        · exact h
  | error e r => simp

theorem throw_error_iff (e e' : Failure) (s t : State) :
    (throw e : EStateM Failure State Result) s = .error e' t ↔ e = e' ∧ s = t := by
  change EStateM.Result.error e s = .error e' t ↔ _
  simp

/-- The state that a step has come to, also when it has failed. -/
def endState : EStateM.Result Failure State Result → State
  | .ok _ s => s
  | .error _ s => s

def thrown? : EStateM.Result Failure State Result → Option Failure
  | .ok _ _ => none
  | .error failure _ => some failure

theorem thrown?_eq_some_iff {run : EStateM.Result Failure State Result} {failure : Failure} :
    thrown? run = some failure ↔ ∃ s, run = .error failure s := by
  cases run <;> simp [thrown?]

theorem eq_ok_of_thrown? {run : EStateM.Result Failure State Unit} (h : thrown? run = none) :
    run = .ok () (endState run) := by
  cases run with
  | ok a s => rfl
  | error failure s => cases h

theorem run'_eq_some_iff {action : EStateM Failure State Result} {s : State} {a : Result} :
    action.run' s = some a ↔ ∃ t, action s = .ok a t := by
  delta EStateM.run' EStateM.run
  cases action s <;> simp

/-- The step never changes what is seen of the state. -/
def Fixes (view : State → View) (action : EStateM Failure State Result) : Prop :=
  ∀ s, view (endState (action s)) = view s

namespace Fixes

variable {view : State → View}

theorem pure (a : Result) : Fixes view (pure a : EStateM Failure State Result) := fun _ => rfl

theorem throw (failure : Failure) :
    Fixes view (throw failure : EStateM Failure State Result) := fun _ => rfl

/-- What both of two steps leave as it is, they leave as it is together. -/
theorem bind {first : EStateM Failure State Result} {second : Result → EStateM Failure State Next}
    (hFirst : Fixes view first) (hSecond : ∀ a, Fixes view (second a)) :
    Fixes view (first >>= second) := by
  intro s
  have hMiddle := hFirst s
  change view (endState (EStateM.bind first second s)) = _
  unfold EStateM.bind
  cases hRun : first s with
  | error failure r =>
      rw [hRun] at hMiddle
      exact hMiddle
  | ok a r =>
      rw [hRun] at hMiddle
      exact (hSecond a r).trans hMiddle

theorem map {first : EStateM Failure State Result} (f : Result → Next) (h : Fixes view first) :
    Fixes view (f <$> first) := by
  rw [map_eq_pure_bind]
  exact h.bind fun _ => pure _

/-- A condition that is decided beforehand keeps what both of two steps leave as it is. -/
theorem ite {p : Prop} [Decidable p] {first second : EStateM Failure State Result}
    (hFirst : Fixes view first) (hSecond : Fixes view second) :
    Fixes view (if p then first else second) := by
  split
  · exact hFirst
  · exact hSecond

theorem get : Fixes view (get : EStateM Failure State State) := fun _ => rfl

/-- A step that uses the state as it is. -/
theorem bindGet {f : State → EStateM Failure State Result}
    (h : ∀ s, view (endState (f s s)) = view s) : Fixes view (MonadState.get >>= f) := h

theorem modify {change : State → State} (h : ∀ s, view (change s) = view s) :
    Fixes view (modify change : EStateM Failure State Unit) := h

end Fixes

end Metagen
