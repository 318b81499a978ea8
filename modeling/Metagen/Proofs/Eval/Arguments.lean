import Metagen.Eval.Generator
import Metagen.Proofs.Eval.Safe

/-! Steps that take arguments and keep what is guarded: with free arguments they are safe, and the
arguments that they leave are free. -/

namespace Metagen

open Eval

namespace Guard

variable {Failure State α β : Type} [HoldsStore State] {g : Guard} {s t : Store}

/-- No argument is a guarded cell. -/
structure FreeArgs (g : Guard) (s : Store) (args : Args) : Prop where
  positional : g.FreeValues s args.positional
  named : g.FreeValues s args.named.values

theorem FreeArgs.mono {args : Args} (h : g.FreeArgs s args) (hGrown : s.Grown t) :
    g.FreeArgs t args := ⟨h.positional.mono hGrown, h.named.mono hGrown⟩

/-- Free values as positional arguments. -/
theorem freeArgs_of_positional {callee : String} {positional : List Value}
    (h : g.FreeValues s positional) : g.FreeArgs s { callee, positional } := ⟨h, freeValues_nil⟩

theorem FreeArgs.takeNamed {args rest : Args} {name : String} {v : Value} (h : g.FreeArgs s args)
    (hTake : args.takeNamed name = some (v, rest)) : g.FreeValue s v ∧ g.FreeArgs s rest := by
  obtain ⟨found, hFound, hPair⟩ := Option.map_eq_some_iff.1 hTake
  cases hPair
  refine ⟨h.named.get? hFound, h.positional, fun w hw => ?_⟩
  exact h.named w (Bindings.mem_values_erase hw)

/-- Taking an argument gives one of the arguments and leaves the others, so that no guarded cell
comes in. -/
theorem FreeArgs.take {args rest : Args} {name : String} {v : Value} (h : g.FreeArgs s args)
    (hTake : args.take name = some (v, rest)) : g.FreeValue s v ∧ g.FreeArgs s rest := by
  unfold Args.take at hTake
  cases hNamed : args.takeNamed name with
  | some taken =>
      rw [hNamed] at hTake
      obtain rfl : taken = (v, rest) := Option.some.inj hTake
      exact h.takeNamed hNamed
  | none =>
      cases hPositional : args.positional with
      | nil =>
          rw [hNamed, hPositional] at hTake
          cases hTake
      | cons first others =>
          rw [hNamed, hPositional] at hTake
          cases hTake
          have hFree := h.positional
          rw [hPositional, freeValues_cons] at hFree
          exact ⟨hFree.1, hFree.2, h.named⟩

/-- Whatever free arguments it is given, the step is safe and leaves free arguments. -/
def SafeSteps (g : Guard) (s : Store) (action : StateT Args (EStateM Failure State) α)
    (good : Store → α → Prop) : Prop :=
  ∀ args, g.FreeArgs s args →
    g.Safe s (action args) fun t r => good t r.1 ∧ g.FreeArgs t r.2

namespace SafeSteps

variable {action : StateT Args (EStateM Failure State) α} {good better : Store → α → Prop}

theorem imp (h : g.SafeSteps s action good) (hImp : ∀ t a, s.Grown t → good t a → better t a) :
    g.SafeSteps s action better := by
  intro args hArgs
  exact (h args hArgs).imp fun t r hGrown hr => ⟨hImp t r.1 hGrown hr.1, hr.2⟩

theorem plain (h : g.SafeSteps s action good) : g.SafeSteps s action Plain :=
  h.imp fun _ _ _ _ => trivial

theorem pure {a : α} (h : ∀ t, s.Grown t → good t a) :
    g.SafeSteps s (pure a : StateT Args (EStateM Failure State) α) good := by
  intro args hArgs
  exact .pure fun t hGrown => ⟨h t hGrown, hArgs.mono hGrown⟩

/-- Safe steps may be put one behind the other if what comes next is safe from every later store. -/
theorem bind {mid : Store → β → Prop} {first : StateT Args (EStateM Failure State) β}
    {second : β → StateT Args (EStateM Failure State) α} (hFirst : g.SafeSteps s first mid)
    (hSecond : ∀ b t, s.Grown t → mid t b → g.SafeSteps t (second b) good) :
    g.SafeSteps s (first >>= second) good := by
  intro args hArgs
  refine (hFirst args hArgs).bind ?_
  rintro ⟨b, rest⟩ t hGrown ⟨hMid, hRest⟩
  exact hSecond b t hGrown hMid rest hRest

theorem bindPlain {first : StateT Args (EStateM Failure State) β}
    {second : β → StateT Args (EStateM Failure State) α} (hFirst : g.SafeSteps s first Plain)
    (hSecond : ∀ b t, s.Grown t → g.SafeSteps t (second b) good) :
    g.SafeSteps s (first >>= second) good := hFirst.bind fun b t hGrown _ => hSecond b t hGrown

theorem map {mid : Store → β → Prop} {first : StateT Args (EStateM Failure State) β} {f : β → α}
    (hFirst : g.SafeSteps s first mid) (hResult : ∀ t b, s.Grown t → mid t b → good t (f b)) :
    g.SafeSteps s (f <$> first) good := by
  intro args hArgs
  refine (hFirst args hArgs).bind_pure ?_
  rintro t ⟨b, rest⟩ hGrown ⟨hMid, hRest⟩
  exact ⟨hResult t b hGrown hMid, hRest⟩

theorem discard (h : g.SafeSteps s action good) : g.SafeSteps s (discard action) Plain :=
  h.map fun _ _ _ _ => trivial

theorem ite {p : Prop} [Decidable p] {other : StateT Args (EStateM Failure State) α}
    (h : g.SafeSteps s action good) (hOther : g.SafeSteps s other good) :
    g.SafeSteps s (if p then action else other) good := by
  split
  · exact h
  · exact hOther

/-- Going through items with safe steps is safe, and results stay good while later items are gone
through. -/
theorem mapM {items : List β} {f : β → StateT Args (EStateM Failure State) α}
    (hMono : ∀ t u a, t.Grown u → good t a → good u a)
    (hItem : ∀ b ∈ items, ∀ t, s.Grown t → g.SafeSteps t (f b) good) :
    g.SafeSteps s (items.mapM f) fun t results => ∀ a ∈ results, good t a := by
  induction items generalizing s with
  | nil =>
      rw [List.mapM_nil]
      exact .pure fun _ _ => by simp
  | cons item rest ih =>
      rw [List.mapM_cons]
      refine (hItem item List.mem_cons_self s (.refl s)).bind fun a t hGrown ha => ?_
      have hRest : g.SafeSteps t (rest.mapM f) fun u results => ∀ b ∈ results, good u b :=
        ih fun b hb u hLater => hItem b (List.mem_cons_of_mem _ hb) u (hGrown.trans hLater)
      refine hRest.bind fun results u hLater hResults => .pure fun v hLast => ?_
      rintro b (_ | ⟨_, hb⟩)
      · exact hMono _ _ _ (hLater.trans hLast) ha
      · exact hMono _ _ _ hLast (hResults b hb)

theorem mapM_plain {items : List β} {f : β → StateT Args (EStateM Failure State) α}
    (hItem : ∀ b ∈ items, ∀ t, s.Grown t → g.SafeSteps t (f b) Plain) :
    g.SafeSteps s (items.mapM f) Plain :=
  (mapM (fun _ _ _ _ _ => trivial) hItem).plain

theorem fail (fault : Fault) : g.SafeSteps s (Native.fail fault : Native α) good := by
  intro args hArgs m hReached
  exact hReached.refl

theorem read {f : Store → α} (h : ∀ t, s.Grown t → g.Keeps t → good t (f t)) :
    g.SafeSteps s (Native.read f) good := by
  intro args hArgs m hReached
  exact ⟨hReached.refl, h m hReached.grown hReached.keeps, hArgs.mono hReached.grown⟩

theorem read_plain (f : Store → α) : g.SafeSteps s (Native.read f) Plain :=
  read fun _ _ _ => trivial

theorem change {f : Store → Store} (h : ∀ t, s.Grown t → g.Keeps t → g.Advances t (f t)) :
    g.SafeSteps s (Native.change f) Plain := by
  intro args hArgs m hReached
  have hAdvances := h m hReached.grown hReached.keeps
  exact ⟨.ofStore hAdvances, trivial, hArgs.mono (hReached.grown.trans hAdvances.grown)⟩

theorem make {f : Store → α × Store}
    (h : ∀ t, s.Grown t → g.Keeps t → g.Advances t (f t).2 ∧ good (f t).2 (f t).1) :
    g.SafeSteps s (Native.make f) good := by
  intro args hArgs m hReached
  obtain ⟨hAdvances, hGood⟩ := h m hReached.grown hReached.keeps
  exact ⟨.ofStore hAdvances, hGood, hArgs.mono (hReached.grown.trans hAdvances.grown)⟩

/-- A list of free values is free. -/
theorem newList {items : Array Value} (h : g.FreeValues s items.toList) :
    g.SafeSteps s (Native.make (·.newList items)) g.FreeValue :=
  make fun _ hGrown hKeeps => hKeeps.newList (h.mono hGrown)

theorem optional (name : String) : g.SafeSteps s (Native.optional name) fun t found =>
    ∀ v ∈ found, g.FreeValue t v := by
  intro args hArgs m hReached
  rw [Native.optional]
  cases hTake : args.take name with
  | none => exact ⟨hReached.refl, by simp, hArgs.mono hReached.grown⟩
  | some taken =>
      obtain ⟨hFree, hRest⟩ := hArgs.take hTake
      exact ⟨hReached.refl, by simpa using hFree.mono hReached.grown, hRest.mono hReached.grown⟩

theorem optionalNamed (name : String) : g.SafeSteps s (Native.optionalNamed name) fun t found =>
    ∀ v ∈ found, g.FreeValue t v := by
  intro args hArgs m hReached
  rw [Native.optionalNamed]
  cases hTake : args.takeNamed name with
  | none => exact ⟨hReached.refl, by simp, hArgs.mono hReached.grown⟩
  | some taken =>
      obtain ⟨hFree, hRest⟩ := hArgs.takeNamed hTake
      exact ⟨hReached.refl, by simpa using hFree.mono hReached.grown, hRest.mono hReached.grown⟩

theorem required (name : String) : g.SafeSteps s (Native.required name) g.FreeValue := by
  intro args hArgs m hReached
  rw [Native.required]
  cases hTake : args.take name with
  | none => exact hReached.refl
  | some taken =>
      obtain ⟨hFree, hRest⟩ := hArgs.take hTake
      exact ⟨hReached.refl, hFree.mono hReached.grown, hRest.mono hReached.grown⟩

theorem rest : g.SafeSteps s Native.rest g.FreeValues := by
  intro args hArgs m hReached
  exact ⟨hReached.refl, hArgs.positional.mono hReached.grown, freeValues_nil,
    hArgs.named.mono hReached.grown⟩

theorem finish : g.SafeSteps s Native.finish Plain := by
  intro args hArgs m hReached
  rw [Native.finish]
  cases args.leftOver? with
  | none => exact ⟨hReached.refl, trivial, hArgs.mono hReached.grown⟩
  | some fault => exact hReached.refl

theorem text (what : String) (v : Value) : g.SafeSteps s (Native.text what v) Plain := by
  cases v with
  | text t => exact .pure fun _ _ => trivial
  | _ => exact fail _

theorem int (what : String) (v : Value) : g.SafeSteps s (Native.int what v) Plain := by
  cases v with
  | int n => exact .pure fun _ _ => trivial
  | _ => exact fail _

theorem items (what : String) {v : Value} (hv : g.FreeValue s v) :
    g.SafeSteps s (Native.items what v) fun t items => g.FreeValues t items.toList := by
  cases v with
  | list cell =>
      apply read
      intro t hGrown hKeeps
      exact hKeeps.listAt (freeValue_list.1 (hv.mono hGrown))
  | _ => exact fail _

theorem fields (what : String) {v : Value} (hv : g.FreeValue s v) :
    g.SafeSteps s (Native.fields what v) fun t fields => g.FreeValues t fields.values := by
  cases v with
  | record cell =>
      apply read
      intro t hGrown hKeeps
      exact hKeeps.recordAt (freeValue_record.1 (hv.mono hGrown))
  | _ => exact fail _

theorem optionalText (what : String) (v : Option Value) :
    g.SafeSteps s (Native.optionalText what v) Plain := by
  cases v with
  | none => exact .pure fun _ _ => trivial
  | some v =>
      cases v with
      | nil => exact .pure fun _ _ => trivial
      | _ => exact (text what _).map fun _ _ _ _ => trivial

end SafeSteps

/-- A builtin step within a script. -/
theorem Safe.native {action : Native α} {good : Store → α → Prop} (h : g.SafeSteps s action good)
    {args : Args} (hArgs : g.FreeArgs s args) :
    g.Safe s (Eval.onStore (action.run' args)) good := by
  apply Safe.onStore
  refine Safe.map (h args hArgs) ?_
  rintro t r hGrown ⟨hGood, -⟩
  exact hGood

end Guard

end Metagen
