import Metagen.Proofs.Run.Plan
import Metagen.Run.Execution

/-! Runs in surroundings that have some state: what is done when one directive has run, and that a
run is made of such steps. -/

namespace Metagen

section

variable {World α β : Type}

/-- The action ends well, with this result and these surroundings. -/
def EndsWell (action : ExceptT Failure (StateM World) α) (w : World) (a : α) (w' : World) : Prop :=
  action.run.run w = (.ok a, w')

/-- Actions in a row end well exactly if the first one does and the other one does behind it. -/
theorem endsWell_bind_iff (first : ExceptT Failure (StateM World) α)
    (second : α → ExceptT Failure (StateM World) β) (w : World) (b : β) (w'' : World) :
    EndsWell (first >>= second) w b w'' ↔
      ∃ a w', EndsWell first w a w' ∧ EndsWell (second a) w' b w'' := by
  simp only [EndsWell, ExceptT.run_bind, StateT.run_bind]
  obtain ⟨⟨outcome, w'⟩, hFirst⟩ : ∃ result, first.run.run w = result := ⟨_, rfl⟩
  rw [hFirst]
  cases outcome with
  | ok a =>
      constructor
      · intro hSecond
        exact ⟨a, w', rfl, hSecond⟩
      · rintro ⟨_, _, hPair, hSecond⟩
        cases hPair
        exact hSecond
  | error failure =>
      constructor
      · intro hFailed
        cases hFailed
      · rintro ⟨_, _, hPair, -⟩
        cases hPair

theorem endsWell_pure_iff (a b : α) (w w' : World) : EndsWell (pure a) w b w' ↔ a = b ∧ w = w' := by
  change ((Except.ok a : Except Failure α), w) = (.ok b, w') ↔ _
  simp

/-- An action that fails does not end well. -/
theorem not_endsWell_failWith (failure : Failure) (w : World) (a : α) (w' : World) :
    ¬ EndsWell (Run.failWith failure) w a w' := by
  intro h
  change ((Except.error failure : Except Failure α), w) = (.ok a, w') at h
  cases h

end

/-- Surroundings without a state: there is nothing to read, and whatever is written is dropped. -/
def Host.idle : Host (StateM Unit) where
  read _ := pure none
  write _ _ := pure true
  makeDirectory _ := pure true
  log _ := pure ()
  before _ := pure ()
  after _ _ := pure ()
  time := pure ""
  timestamp := pure ""
  clock := pure 0

/-- In surroundings without a state, the action ends well with a result that passes the check. -/
def endsWith {α : Type} (action : ExceptT Failure (StateM Unit) α) (check : α → Bool) : Bool :=
  match action.run.run () with
  | (.ok a, _) => check a
  | (.error _, _) => false

theorem endsWell_of_endsWith {α : Type} {action : ExceptT Failure (StateM Unit) α}
    {check : α → Bool} (h : endsWith action check = true) :
    ∃ a, EndsWell action () a () ∧ check a = true := by
  unfold endsWith at h
  split at h
  next a w hRun => exact ⟨a, hRun, h⟩
  next => cases h

namespace RunState

/-- A script does not touch what is recorded. -/
theorem symbols_evaluate (st : RunState) (fuel : Nat) (unit : CompiledUnit) (number : Nat)
    (env : Env) : (st.evaluate fuel unit number env).2.symbols = st.symbols := by
  unfold evaluate
  dsimp only
  split <;> rfl

end RunState

namespace Run

variable {World : Type} {host : Host (StateM World)} {fuel : Nat} {plan : Plan}

def stateAfter {m : Type → Type} [Monad m] (host : Host m) (fuel : Nat) (plan : Plan)
    (receipt : Bool) (done : List Nat) : ExceptT Failure m RunState :=
  done.foldlM (execute host fuel plan) { emitter := { receipt } }

/-- In a run every directive starts from what those before it have left. -/
theorem executeAll_eq {m : Type → Type} [Monad m] [LawfulMonad m] (host : Host m) (fuel : Nat)
    (plan : Plan) (receipt : Bool) {done more : List Nat} {i : Nat}
    (hOrder : plan.order = done ++ i :: more) :
    executeAll host fuel plan receipt =
      stateAfter host fuel plan receipt done >>= fun st =>
        execute host fuel plan st i >>= more.foldlM (execute host fuel plan) := by
  rw [executeAll, hOrder, List.foldlM_append]
  rfl

/-- Writing what a directive has generated changes neither the store nor the symbols. -/
theorem endsWell_finish {d : Directive} {st st' : RunState} {started : Nat} {w w' : World}
    (h : EndsWell (finish host d st started) w st' w') :
    st'.store = st.store ∧ st'.symbols = st.symbols ∧
      ∃ time, st'.emitter = (st.emitter.finishAt time).2 := by
  obtain ⟨time, _, -, h⟩ := (endsWell_bind_iff _ _ _ _ _).1 h
  obtain ⟨result, hResult⟩ : ∃ result, st.emitter.finishAt time = result := ⟨_, rfl⟩
  rw [hResult] at h
  obtain ⟨generated, emitter⟩ := result
  have hTail : ∀ w, @EndsWell World RunState (do
      host.after d (generated.map (·.text))
      let stopped ← host.clock
      return { st with
        emitter, entries := st.entries ++ [RunState.entry d generated (stopped - started)] })
      w st' w' → st'.store = st.store ∧ st'.symbols = st.symbols ∧
        ∃ time, st'.emitter = (st.emitter.finishAt time).2 := by
    intro w h
    obtain ⟨_, _, -, h⟩ := (endsWell_bind_iff _ _ _ _ _).1 h
    obtain ⟨_, _, -, h⟩ := (endsWell_bind_iff _ _ _ _ _).1 h
    obtain ⟨rfl, -⟩ := (endsWell_pure_iff _ _ _ _).1 h
    exact ⟨rfl, rfl, time, congrArg Prod.snd hResult.symm⟩
  cases generated with
  | none => exact hTail _ h
  | some file =>
      obtain ⟨_, _, -, h⟩ := (endsWell_bind_iff _ _ _ _ _).1 h
      exact hTail _ h

/-- A directive that has run has come to the end of its script, and all it defines is recorded. -/
theorem endsWell_execute {st st' : RunState} {i : Nat} {d : Directive} {unit : CompiledUnit}
    {w w' : World} (hItem : plan.item? i = some (d, unit))
    (h : EndsWell (execute host fuel plan st i) w st' w') :
    ∃ ran symbols, (st.start d).2.evaluate fuel unit i (st.start d).1 = (.ok (), ran) ∧
      SymbolTable.record d (st.start d).1 ran.store st.symbols = .ok () symbols ∧
      st'.store = ran.store ∧ st'.symbols = symbols ∧
      ∃ time, st'.emitter = (ran.emitter.finishAt time).2 := by
  simp only [execute, hItem] at h
  obtain ⟨started, _, -, h⟩ := (endsWell_bind_iff _ _ _ _ _).1 h
  obtain ⟨_, _, -, h⟩ := (endsWell_bind_iff _ _ _ _ _).1 h
  obtain ⟨_, _, -, h⟩ := (endsWell_bind_iff _ _ _ _ _).1 h
  obtain ⟨_, _, hOutcome, h⟩ := (endsWell_bind_iff _ _ _ _ _).1 h
  cases hRan : (st.start d).2.evaluate fuel unit i (st.start d).1 with
  | mk outcome ran =>
      rw [hRan] at hOutcome h
      have hSymbols : ran.symbols = st.symbols := by
        have hKept := (st.start d).2.symbols_evaluate fuel unit i (st.start d).1
        rw [hRan] at hKept
        exact hKept
      rw [hSymbols] at h
      cases outcome with
      | error stop =>
          cases stop with
          | failed error => exact (not_endsWell_failWith _ _ _ _ hOutcome).elim
          | outOfFuel => exact (not_endsWell_failWith _ _ _ _ hOutcome).elim
      | ok =>
          cases hRecord : SymbolTable.record d (st.start d).1 ran.store st.symbols with
          | error decl table =>
              rw [hRecord] at h
              exact (not_endsWell_failWith _ _ _ _ h).elim
          | ok done symbols =>
              rw [hRecord] at h
              obtain ⟨hStore, hTable, hEmitter⟩ := endsWell_finish h
              exact ⟨ran, symbols, rfl, hRecord, hStore, hTable, hEmitter⟩

end Run

end Metagen
