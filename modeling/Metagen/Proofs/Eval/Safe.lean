import Metagen.Eval.Level
import Metagen.Proofs.Value.Guard

/-! Steps that keep what is guarded. A step is safe when it leaves guarded cells as they are and
gives free results, also when it fails. What is needed to know of a result may depend on the store
in which it is given, and holds as well in every later store. -/

namespace Metagen

open Eval Emission

/-- A state with a store in it, and perhaps with open scopes. -/
class HoldsStore (State : Type) where
  storeOf : State → Store
  env? : State → Option Env

instance : HoldsStore Store := ⟨id, fun _ => none⟩

instance : HoldsStore Machine := ⟨Machine.store, fun m => some m.env⟩

namespace Guard

open HoldsStore

variable {Failure State α β : Type} [HoldsStore State] {g : Guard} {s : Store}

/-- The state has come from a store to a later one, in which what is guarded is kept, and no scope
that is open in it is guarded. -/
structure Reaches (g : Guard) (s : Store) (m : State) : Prop where
  advances : g.Advances s (storeOf m)
  scopes : ∀ env ∈ env? m, g.FreeEnv (storeOf m) env

/-- Where a step from a store has come to. -/
def Lands (g : Guard) (s : Store) (good : Store → α → Prop) : EStateM.Result Failure State α → Prop
  | .ok a m => g.Reaches s m ∧ good (storeOf m) a
  | .error _ m => g.Reaches s m

/-- From this store or any later one, the step keeps what is guarded, and its result is good. -/
def Safe (g : Guard) (s : Store) (action : EStateM Failure State α) (good : Store → α → Prop) :
    Prop :=
  ∀ m, g.Reaches s m → g.Lands (storeOf m) good (action m)

/-- Nothing needs to be known of the result. -/
abbrev Plain : Store → α → Prop := fun _ _ => True

namespace Reaches

variable {m : State} {t : Store}

theorem grown (h : g.Reaches s m) : s.Grown (storeOf m) := h.advances.grown

theorem keeps (h : g.Reaches s m) : g.Keeps (storeOf m) := h.advances.keeps

theorem refl (h : g.Reaches s m) : g.Reaches (storeOf m) m := ⟨h.keeps.advances, h.scopes⟩

theorem after (h : g.Reaches t m) (hGrown : s.Grown t) : g.Reaches s m :=
  ⟨⟨hGrown.trans h.grown, h.keeps⟩, h.scopes⟩

/-- A store has no scopes open. -/
theorem ofStore (h : g.Advances s t) : g.Reaches s t := ⟨h, nofun⟩

theorem env {m : Machine} (h : g.Reaches s m) : g.FreeEnv m.store m.env := h.scopes m.env rfl

/-- Nothing but the store and the open scopes counts. -/
theorem congr {m m' : Machine} (h : g.Reaches s m) (hStore : m'.store = m.store)
    (hScopes : m'.env = m.env) : g.Reaches s m' := by
  have hSame : storeOf m' = storeOf m := hStore
  refine ⟨hSame ▸ h.advances, ?_⟩
  rintro _ ⟨⟩
  rw [hSame, hScopes]
  exact h.env

/-- The same scopes are open in a later store. -/
theorem sameScopes {m m' : Machine} (h : g.Reaches s m) (hStore : g.Advances m.store m'.store)
    (hScopes : m'.env = m.env) : g.Reaches m.store m' := by
  refine ⟨hStore, ?_⟩
  rintro _ ⟨⟩
  rw [hScopes]
  exact h.env.mono hStore.grown

end Reaches

/-- What is known of a result may be replaced by what follows from it in every later store. -/
theorem Lands.imp {good better : Store → α → Prop} {r : EStateM.Result Failure State α}
    (h : g.Lands s good r) (hImp : ∀ t a, s.Grown t → good t a → better t a) :
    g.Lands s better r := by
  cases r with
  | ok a m => exact ⟨h.1, hImp _ a h.1.grown h.2⟩
  | error e m => exact h

theorem Lands.after {t : Store} {good : Store → α → Prop} {r : EStateM.Result Failure State α}
    (h : g.Lands t good r) (hGrown : s.Grown t) : g.Lands s good r := by
  cases r with
  | ok a m => exact ⟨h.1.after hGrown, h.2⟩
  | error e m => exact Reaches.after h hGrown

namespace Safe

variable {action : EStateM Failure State α} {good better : Store → α → Prop}

theorem imp (h : g.Safe s action good) (hImp : ∀ t a, s.Grown t → good t a → better t a) :
    g.Safe s action better := by
  intro m hReached
  exact (h m hReached).imp fun t a hLater => hImp t a (hReached.grown.trans hLater)

/-- What is safe from a store is safe from every later one. -/
theorem after {t : Store} (h : g.Safe s action good) (hGrown : s.Grown t) :
    g.Safe t action good :=
  fun m hReached => h m (hReached.after hGrown)

theorem plain (h : g.Safe s action good) : g.Safe s action Plain :=
  h.imp fun _ _ _ _ => trivial

theorem pure {a : α} (h : ∀ t, s.Grown t → good t a) :
    g.Safe s (pure a : EStateM Failure State α) good := by
  intro m hReached
  exact ⟨hReached.refl, h _ hReached.grown⟩

theorem throw (failure : Failure) : g.Safe s (throw failure : EStateM Failure State α) good := by
  intro m hReached
  exact hReached.refl

/-- The second step starts where the first has come to. -/
theorem bind {mid : Store → β → Prop} {first : EStateM Failure State β}
    {second : β → EStateM Failure State α} (hFirst : g.Safe s first mid)
    (hSecond : ∀ b t, s.Grown t → mid t b → g.Safe t (second b) good) :
    g.Safe s (first >>= second) good := by
  intro m hReached
  have hLands := hFirst m hReached
  change g.Lands _ good (EStateM.bind first second m)
  rw [EStateM.bind]
  cases hRun : first m with
  | error e r =>
      rw [hRun] at hLands
      exact hLands
  | ok b r =>
      rw [hRun] at hLands
      obtain ⟨hThere, hMid⟩ := hLands
      have hNext := hSecond b _ (hReached.grown.trans hThere.grown) hMid r hThere.refl
      exact hNext.after hThere.grown

theorem bindPlain {first : EStateM Failure State β} {second : β → EStateM Failure State α}
    (hFirst : g.Safe s first Plain) (hSecond : ∀ b t, s.Grown t → g.Safe t (second b) good) :
    g.Safe s (first >>= second) good := hFirst.bind fun b t hGrown _ => hSecond b t hGrown

/-- A result of a safe step may be changed to another good one. -/
theorem map {mid : Store → β → Prop} {first : EStateM Failure State β} {f : β → α}
    (hFirst : g.Safe s first mid) (hResult : ∀ t b, s.Grown t → mid t b → good t (f b)) :
    g.Safe s (f <$> first) good := by
  intro m hReached
  have hLands := hFirst m hReached
  change g.Lands _ good (EStateM.map f first m)
  rw [EStateM.map]
  cases hRun : first m with
  | error e r =>
      rw [hRun] at hLands
      exact hLands
  | ok b r =>
      rw [hRun] at hLands
      exact ⟨hLands.1, hResult _ b (hReached.grown.trans hLands.1.grown) hLands.2⟩

theorem bind_pure {mid : Store → β → Prop} {first : EStateM Failure State β} {f : β → α}
    (hFirst : g.Safe s first mid) (hResult : ∀ t b, s.Grown t → mid t b → good t (f b)) :
    g.Safe s (first >>= fun b => Pure.pure (f b)) good := by
  rw [bind_pure_comp]
  exact hFirst.map hResult

theorem discard (h : g.Safe s action good) : g.Safe s (discard action) Plain :=
  h.map fun _ _ _ _ => trivial

theorem get : g.Safe s (get : EStateM Failure State State) fun t m =>
    storeOf m = t ∧ g.Reaches t m := by
  intro m hReached
  exact ⟨hReached.refl, rfl, hReached.refl⟩

theorem modify {change : State → State}
    (h : ∀ m, g.Reaches s m → g.Reaches (storeOf m) (change m)) :
    g.Safe s (modify change : EStateM Failure State Unit) Plain := by
  intro m hReached
  exact ⟨h m hReached, trivial⟩

/-- One step for each item, when what is good stays good. -/
theorem mapM {items : List β} {f : β → EStateM Failure State α}
    (hMono : ∀ t u a, t.Grown u → good t a → good u a)
    (hItem : ∀ b ∈ items, ∀ t, s.Grown t → g.Safe t (f b) good) :
    g.Safe s (items.mapM f) fun t results => ∀ a ∈ results, good t a := by
  induction items generalizing s with
  | nil =>
      rw [List.mapM_nil]
      exact .pure fun _ _ => by simp
  | cons item rest ih =>
      rw [List.mapM_cons]
      refine (hItem item List.mem_cons_self s (.refl s)).bind fun a t hGrown ha => ?_
      have hRest : g.Safe t (rest.mapM f) fun u results => ∀ b ∈ results, good u b :=
        ih fun b hb u hLater => hItem b (List.mem_cons_of_mem _ hb) u (hGrown.trans hLater)
      refine hRest.bind fun results u hLater hResults => .pure fun v hLast => ?_
      rintro b (_ | ⟨_, hb⟩)
      · exact hMono _ _ _ (hLater.trans hLast) ha
      · exact hMono _ _ _ hLast (hResults b hb)

/-- One step after the other, each from the result of the last, when what is good stays good. -/
theorem foldlM {items : List β} {f : α → β → EStateM Failure State α} {a : α}
    (hMono : ∀ t u a, t.Grown u → good t a → good u a) (ha : good s a)
    (hStep : ∀ b ∈ items, ∀ a t, s.Grown t → good t a → g.Safe t (f a b) good) :
    g.Safe s (items.foldlM f a) good := by
  induction items generalizing s a with
  | nil =>
      rw [List.foldlM_nil]
      exact .pure fun t hGrown => hMono s t a hGrown ha
  | cons item rest ih =>
      rw [List.foldlM_cons]
      refine (hStep item List.mem_cons_self a s (.refl s) ha).bind fun b t hGrown hb => ?_
      apply ih hb
      exact fun c hc r u hLater => hStep c (List.mem_cons_of_mem _ hc) r u (hGrown.trans hLater)

section

variable {action : EvalM α} {good : Store → α → Prop}

theorem fail (fault : Fault) : g.Safe s (Eval.fail fault : EvalM α) good := throw _

theorem readStore {f : Store → α} (h : ∀ t, s.Grown t → g.Keeps t → good t (f t)) :
    g.Safe s (Eval.readStore f) good := by
  intro m hReached
  exact ⟨hReached.refl, h _ hReached.grown hReached.keeps⟩

/-- A change of the store is safe if it keeps what is guarded from every store with free scopes. -/
theorem changeStore {f : Env → Store → Store}
    (h : ∀ t env, s.Grown t → g.Keeps t → g.FreeEnv t env → g.Advances t (f env t)) :
    g.Safe s (Eval.changeStore f) Plain := by
  intro m hReached
  have hAdvances := h m.store m.env hReached.grown hReached.keeps hReached.env
  exact ⟨hReached.sameScopes hAdvances rfl, trivial⟩

/-- A safe step of the store is a safe step of a script. -/
theorem onStore {step : EStateM Fault Store α} (h : g.Safe s step good) :
    g.Safe s (Eval.onStore step) good := by
  intro m hReached
  have hLands := h m.store (.ofStore hReached.advances)
  rw [Eval.onStore]
  cases hRun : step m.store with
  | error fault r =>
      rw [hRun] at hLands
      exact hReached.sameScopes hLands.advances rfl
  | ok a r =>
      rw [hRun] at hLands
      exact ⟨hReached.sameScopes hLands.1.advances rfl, hLands.2⟩

/-- Making a cell is safe if the cell leads nowhere near what is guarded. -/
theorem makeCell {f : Store → α × Store}
    (h : ∀ t, s.Grown t → g.Keeps t → g.Advances t (f t).2 ∧ good (f t).2 (f t).1) :
    g.Safe s (Eval.makeCell f) good := by
  apply onStore
  intro t hReached
  obtain ⟨hAdvances, hGood⟩ := h t hReached.grown hReached.keeps
  exact ⟨.ofStore hAdvances, hGood⟩

/-- Marking a line changes neither the store nor the scopes. -/
theorem mark (span : Span) : g.Safe s (Eval.mark span) Plain := by
  apply modify
  intro m hReached
  split
  · exact hReached.refl.congr rfl rfl
  · exact hReached.refl

/-- What was entered may be left when no scope that is open then is guarded. -/
theorem leaving {leave : Machine → Machine} (h : g.Safe s action good)
    (hStore : ∀ m, (leave m).store = m.store)
    (hScopes : ∀ m, g.Reaches s m → g.FreeEnv m.store (leave m).env) :
    g.Safe s (Eval.leaving leave action) good := by
  intro m hReached
  have hLands := h m hReached
  have hSame : ∀ r, storeOf (leave r) = storeOf r := hStore
  have hLeft : ∀ r, g.Reaches (storeOf m) r → g.Reaches (storeOf m) (leave r) := by
    refine fun r hThere => ⟨hSame r ▸ hThere.advances, ?_⟩
    rintro _ ⟨⟩
    exact hSame r ▸ hScopes r (hThere.after hReached.grown)
  rw [Eval.leaving]
  cases hRun : action m with
  | error stop r =>
      rw [hRun] at hLands
      exact hLeft r hLands
  | ok a r =>
      rw [hRun] at hLands
      exact ⟨hLeft r hLands.1, hSame r ▸ hLands.2⟩

/-- A frame changes neither the store nor the scopes, so that what runs inside may be safe for
both. -/
theorem withFrame (frame : Frame) (h : g.Safe s action good) :
    g.Safe s (Eval.withFrame frame action) good := by
  intro m hReached
  have hLands := h { m with frames := frame :: m.frames } (hReached.congr rfl rfl)
  rw [Eval.withFrame]
  cases hRun : action { m with frames := frame :: m.frames } with
  | error stop r =>
      rw [hRun] at hLands
      exact Reaches.congr hLands rfl rfl
  | ok a r =>
      rw [hRun] at hLands
      exact ⟨hLands.1.congr rfl rfl, hLands.2⟩

theorem withNative (label : String) (h : g.Safe s action good) :
    g.Safe s (Eval.withNative label action) good := h.withFrame _

theorem withLoop (h : g.Safe s action good) : g.Safe s (Eval.withLoop action) good := by
  intro m hReached
  have hLeft : g.Safe s (Eval.leaving (fun r => { r with loops := r.loops - 1 }) action) good :=
    h.leaving (fun _ => rfl) fun _ hThere => hThere.env
  exact hLeft { m with loops := m.loops + 1 } (hReached.congr rfl rfl)

/-- The counters that a call changes are none of a guard's business. -/
theorem withCall (unit : Nat) (h : g.Safe s action good) :
    g.Safe s (Eval.withCall unit action) good := by
  intro m hReached
  let leave : Machine → Machine := fun r =>
    { r with unit := m.unit, calls := r.calls - 1, loops := m.loops }
  have hLeft : g.Safe s (Eval.leaving leave action) good :=
    h.leaving (fun _ => rfl) fun _ hThere => hThere.env
  exact hLeft { m with unit, calls := m.calls + 1, loops := 0 } (hReached.congr rfl rfl)

theorem changeEmitter (change : Emitter → Emitter) :
    g.Safe s (Emission.changeEmitter change : EvalM Unit) Plain := by
  intro m hReached
  exact ⟨hReached.refl.congr rfl rfl, trivial⟩

/-- A request of generated text changes neither the store nor the scopes, whether it is refused or
not. -/
theorem liftEmit (wrap : EmissionError → Stop) (emit : Emit α) :
    g.Safe s (Emission.liftEmit wrap emit : EvalM α) Plain := by
  intro m hReached
  rw [Emission.liftEmit]
  cases emit (HoldsEmitter.emitter m) with
  | error e r => exact hReached.refl.congr rfl rfl
  | ok a r => exact ⟨hReached.refl.congr rfl rfl, trivial⟩

/-- A change of the emitter behind a safe step is safe. -/
theorem andAfter (change : Emitter → Emitter) (h : g.Safe s action good) :
    g.Safe s (Emission.andAfter action change) good := by
  intro m hReached
  have hLands := h m hReached
  rw [Emission.andAfter]
  cases hRun : action m with
  | error stop r =>
      rw [hRun] at hLands
      exact Reaches.congr hLands rfl rfl
  | ok a r =>
      rw [hRun] at hLands
      exact ⟨hLands.1.congr rfl rfl, hLands.2⟩

/-- A scope of generated text changes neither the store nor the open scopes of the script. -/
theorem withScope (scope : Scope) (h : g.Safe s action good) :
    g.Safe s (Emission.withScope scope action) good := by
  intro m hReached
  rw [Emission.withScope]
  generalize (HoldsEmitter.emitter m).enter scope = entered
  obtain ⟨side, e⟩ := entered
  exact h.andAfter (·.exit side) (HoldsEmitter.setEmitter m e) (hReached.congr rfl rfl)

theorem withSection (text : String) (h : g.Safe s action good) :
    g.Safe s (Emission.withSection text action) good := by
  intro m hReached
  exact h.andAfter (·.endSection) _ (hReached.congr rfl rfl)

theorem renderValue (v : Value) : g.Safe s (Eval.renderValue v) Plain :=
  readStore fun _ _ _ => trivial

theorem isTrue (v : Value) : g.Safe s (Eval.isTrue v) Plain := readStore fun _ _ _ => trivial

theorem cTextOf (v : Value) : g.Safe s (Eval.cTextOf v) Plain := by
  intro m hReached
  rw [Eval.cTextOf]
  cases v.cText m.store with
  | error type => exact hReached.refl
  | ok text => exact ⟨hReached.refl, trivial⟩

theorem define {v : Value} (hv : g.FreeValue s v) (name : String) :
    g.Safe s (Eval.define name v) Plain :=
  changeStore fun _ _ hGrown hKeeps hEnv => hKeeps.define hEnv (hv.mono hGrown) name

/-- A scope that is opened is new, and therefore free like those around it. -/
theorem pushScope : g.Safe s Eval.pushScope Plain := by
  refine get.bind fun m t hGrown hm => ?_
  obtain ⟨rfl, hReached⟩ := hm
  refine (makeCell fun u hLater hKeeps => hKeeps.pushEnv (hReached.env.mono hLater)).bind
    fun env u hLater hEnv => modify fun m hThere => ⟨hThere.keeps.advances, ?_⟩
  rintro _ ⟨⟩
  exact hEnv.mono hThere.grown

/-- A scope of one's own is not guarded. -/
theorem inNewScope (h : ∀ t, s.Grown t → g.Safe t action good) :
    g.Safe s (Eval.inNewScope action) good := by
  refine pushScope.bindPlain fun _ t hGrown => ?_
  exact (h t hGrown).leaving (fun _ => rfl) fun _ hThere => freeEnv_pop hThere.env

/-- Other scopes may be entered if they are not guarded. -/
theorem inScopes {env : Env} (hEnv : g.FreeEnv s env) (h : g.Safe s action good) :
    g.Safe s (Eval.inScopes env action) good := by
  intro m hReached
  have hLeft : g.Safe m.store (Eval.leaving ({ · with env := m.env }) action) good :=
    (h.after hReached.grown).leaving (fun _ => rfl) fun _ hThere => hReached.env.mono hThere.grown
  refine hLeft { m with env } ⟨hReached.keeps.advances, ?_⟩
  rintro _ ⟨⟩
  exact hEnv.mono hReached.grown

end

end Safe

end Guard

end Metagen
