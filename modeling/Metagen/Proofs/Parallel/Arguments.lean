import Metagen.Eval.Generator
import Metagen.Proofs.Parallel.Lockstep

/-! Steps that take arguments, side by side: given paired arguments they give related results and
leave paired arguments. -/

namespace Metagen

open Eval

variable {Failure State α β γ δ : Type}

namespace Pairing

variable {g : Pairing} {S : Tandem State} {v w : Value}

/-- Arguments that are the same but for the numbers of cells. How the called function is named may
differ. -/
structure Args (g : Pairing) (a b : Eval.Args) : Prop where
  positional : List.Forall₂ g.Values a.positional b.positional
  named : g.Fields a.named b.named

/-- A value that was taken, and the other arguments. -/
def TakenAlike (g : Pairing) (x y : Value × Eval.Args) : Prop := g.Values x.1 y.1 ∧ g.Args x.2 y.2

/-- An argument that is given by its name is there on both sides or on neither, and so are the
arguments it leaves. -/
theorem Args.takeNamed {a b : Eval.Args} (h : g.Args a b) (name : String) :
    Option.Rel g.TakenAlike (a.takeNamed name) (b.takeNamed name) := by
  unfold Eval.Args.takeNamed
  rcases rel_cases (h.named.bound name) with ⟨hx, hy⟩ | ⟨v, w, hx, hy, hv⟩
  · rw [hx, hy]
    exact .none
  · rw [hx, hy]
    exact .some ⟨hv, h.positional, h.named.erase name⟩

/-- The argument of a parameter is taken from paired arguments on both sides or on neither. -/
theorem Args.take {a b : Eval.Args} (h : g.Args a b) (name : String) :
    Option.Rel g.TakenAlike (a.take name) (b.take name) := by
  unfold Eval.Args.take
  have hPositional := h.positional
  rcases rel_cases (h.takeNamed name) with ⟨hx, hy⟩ | ⟨v, w, hx, hy, hTaken⟩
  · rw [hx, hy]
    generalize a.positional = xs, b.positional = ys at hPositional
    cases hPositional with
    | nil => exact .none
    | cons hv hRest => exact .some ⟨hv, hRest, h.named⟩
  · rw [hx, hy]
    exact .some hTaken

/-- Both refuse what is left over, or neither does. -/
theorem Args.leftOver?_eq_none {a b : Eval.Args} (h : g.Args a b) (hNone : a.leftOver? = none) :
    b.leftOver? = none := by
  unfold Eval.Args.leftOver? at hNone ⊢
  rw [← h.named.names_eq]
  have hPositional := h.positional
  generalize a.positional = xs, b.positional = ys at hNone hPositional ⊢
  cases hNames : a.named.names with
  | cons name others =>
      rw [hNames] at hNone
      cases hNone
  | nil =>
      rw [hNames] at hNone
      cases hPositional with
      | nil => rfl
      | cons _ _ => cases hNone

/-- Given paired arguments, one step follows the other. -/
def FollowsGiven (g : Pairing) (S : Tandem State) (R : α → β → Prop)
    (first : StateT Eval.Args (EStateM Failure State) α)
    (second : StateT Eval.Args (EStateM Failure State) β) : Prop :=
  ∀ args args', g.Args args args' →
    Follows S (fun r r' => R r.1 r'.1 ∧ g.Args r.2 r'.2) (first args) (second args')

namespace FollowsGiven

variable {Q : γ → δ → Prop} {R R' : α → β → Prop}
  {first : StateT Eval.Args (EStateM Failure State) α}
  {second : StateT Eval.Args (EStateM Failure State) β}

theorem imp (h : g.FollowsGiven S R first second) (hImp : ∀ a b, R a b → R' a b) :
    g.FollowsGiven S R' first second := fun args args' hArgs =>
  (h args args' hArgs).imp fun r r' hr => ⟨hImp r.1 r'.1 hr.1, hr.2⟩

theorem pure {a : α} {b : β} (h : R a b) :
    g.FollowsGiven S R (pure a : StateT Eval.Args (EStateM Failure State) α) (pure b) :=
  fun _ _ hArgs => .pure ⟨h, hArgs⟩

/-- Steps that follow each other may be put one behind the other if what comes next follows for
every pair of results. -/
theorem bind {first : StateT Eval.Args (EStateM Failure State) γ}
    {second : StateT Eval.Args (EStateM Failure State) δ}
    {next : γ → StateT Eval.Args (EStateM Failure State) α}
    {next' : δ → StateT Eval.Args (EStateM Failure State) β}
    (h : g.FollowsGiven S Q first second)
    (hNext : ∀ c d, Q c d → g.FollowsGiven S R (next c) (next' d)) :
    g.FollowsGiven S R (first >>= next) (second >>= next') := by
  intro args args' hArgs
  refine (h args args' hArgs).bind ?_
  rintro ⟨c, rest⟩ ⟨d, rest'⟩ ⟨hPair, hRest⟩
  exact hNext c d hPair rest rest' hRest

/-- Results that are the same on both sides. -/
theorem bindSame {first second : StateT Eval.Args (EStateM Failure State) γ}
    {next : γ → StateT Eval.Args (EStateM Failure State) α}
    {next' : γ → StateT Eval.Args (EStateM Failure State) β}
    (h : g.FollowsGiven S Eq first second)
    (hNext : ∀ c, g.FollowsGiven S R (next c) (next' c)) :
    g.FollowsGiven S R (first >>= next) (second >>= next') := by
  refine h.bind ?_
  rintro c _ rfl
  exact hNext c

theorem map {first : StateT Eval.Args (EStateM Failure State) γ}
    {second : StateT Eval.Args (EStateM Failure State) δ} {f : γ → α} {f' : δ → β}
    (h : g.FollowsGiven S Q first second) (hResult : ∀ c d, Q c d → R (f c) (f' d)) :
    g.FollowsGiven S R (f <$> first) (f' <$> second) := by
  rw [map_eq_pure_bind, map_eq_pure_bind]
  exact h.bind fun c d hPair => pure (hResult c d hPair)

theorem discard (h : g.FollowsGiven S R first second) :
    g.FollowsGiven S Eq (discard first) (discard second) := h.map fun _ _ _ => rfl

/-- Steps for paired items, one after the other, give results that are paired one by one. -/
theorem mapM {P : γ → δ → Prop} {items : List γ} {items' : List δ}
    (hItems : List.Forall₂ P items items')
    {f : γ → StateT Eval.Args (EStateM Failure State) α}
    {f' : δ → StateT Eval.Args (EStateM Failure State) β}
    (h : ∀ c d, P c d → g.FollowsGiven S R (f c) (f' d)) :
    g.FollowsGiven S (List.Forall₂ R) (items.mapM f) (items'.mapM f') := by
  induction hItems with
  | nil =>
      rw [List.mapM_nil, List.mapM_nil]
      exact pure .nil
  | cons hPair _ ih =>
      rw [List.mapM_cons, List.mapM_cons]
      refine (h _ _ hPair).bind fun a b hResult => ih.bind fun results results' hResults => ?_
      exact pure (.cons hResult hResults)

/-- Items that give the same on both sides. -/
theorem mapMSame {P : γ → δ → Prop} {items : List γ} {items' : List δ}
    (hItems : List.Forall₂ P items items')
    {f : γ → StateT Eval.Args (EStateM Failure State) α}
    {f' : δ → StateT Eval.Args (EStateM Failure State) α}
    (h : ∀ c d, P c d → g.FollowsGiven S Eq (f c) (f' d)) :
    g.FollowsGiven S Eq (items.mapM f) (items'.mapM f') :=
  (mapM hItems h).imp fun _ _ => forall₂_eq_of_forall₂

end FollowsGiven

abbrev NativeStep (g : Pairing) (R : α → β → Prop) (first : Native α) (second : Native β) : Prop :=
  g.FollowsGiven (.plain g.Stores) R first second

namespace NativeStep

open FollowsGiven

variable {R : α → β → Prop} {first : Native α} {second : Native β}

theorem fail (fault : Fault) : g.NativeStep R (Native.fail fault) second := by
  intro args args' _ s t _ r s' hRun
  cases hRun

/-- Nothing follows a failure. -/
theorem failing (fault : Fault) {next : γ → Native α} :
    g.NativeStep R (Native.fail fault >>= next) second := by
  intro args args' _ s t _ r s' hRun
  cases hRun

theorem read {f : Store → α} {f' : Store → β} (h : ∀ s t, g.Stores s t → R (f s) (f' t)) :
    g.NativeStep R (Native.read f) (Native.read f') := by
  refine fun args args' hArgs => .plain fun s t hStores r s' hRun => ?_
  cases hRun
  exact ⟨(f' t, args'), t, rfl, hStores, h s t hStores, hArgs⟩

theorem change {f f' : Store → Store} (h : ∀ s t, g.Stores s t → g.Stores (f s) (f' t)) :
    g.NativeStep Eq (Native.change f) (Native.change f') := by
  refine fun args args' hArgs => .plain fun s t hStores r s' hRun => ?_
  cases hRun
  exact ⟨((), args'), f' t, rfl, h s t hStores, rfl, hArgs⟩

/-- A change that gives a result of its own. -/
theorem changing {f f' : Store → Store} {a : α} {b : β}
    (h : ∀ s t, g.Stores s t → g.Stores (f s) (f' t)) (hResult : R a b) :
    g.NativeStep R (Native.change f >>= fun _ => Pure.pure a)
      (Native.change f' >>= fun _ => Pure.pure b) := (change h).bind fun _ _ _ => pure hResult

theorem make {f : Store → α × Store} {f' : Store → β × Store}
    (h : ∀ s t, g.Stores s t → g.Stores (f s).2 (f' t).2 ∧ R (f s).1 (f' t).1) :
    g.NativeStep R (Native.make f) (Native.make f') := by
  refine fun args args' hArgs => .plain fun s t hStores r s' hRun => ?_
  cases hRun
  obtain ⟨hNext, hResult⟩ := h s t hStores
  exact ⟨((f' t).1, args'), (f' t).2, rfl, hNext, hResult, hArgs⟩

theorem newList {items items' : Array Value} (h : g.Items items items') :
    g.NativeStep g.Values (Native.make (·.newList items)) (Native.make (·.newList items')) :=
  make fun _ _ hStores => hStores.newList h

theorem newRecord {fields fields' : Bindings Value} (h : g.Fields fields fields') :
    g.NativeStep g.Values (Native.make (·.newRecord fields)) (Native.make (·.newRecord fields')) :=
  make fun _ _ hStores => hStores.newRecord h

/-- An argument that may be missing is missing on both sides or on neither. -/
theorem optional (name : String) :
    g.NativeStep (Option.Rel g.Values) (Native.optional name) (Native.optional name) := by
  refine fun args args' hArgs => .plain fun s t hStores r s' hRun => ?_
  unfold Native.optional at hRun
  rcases rel_cases (hArgs.take name) with ⟨hx, hy⟩ | ⟨x, y, hx, hy, hTaken⟩
  · simp only [hx] at hRun
    cases hRun
    exact ⟨(none, args'), t, by simp only [Native.optional, hy], hStores, .none, hArgs⟩
  · simp only [hx] at hRun
    cases hRun
    exact ⟨(some y.1, y.2), t, by simp only [Native.optional, hy], hStores, .some hTaken.1,
      hTaken.2⟩

/-- An argument that is never positional is missing on both sides or on neither. -/
theorem optionalNamed (name : String) :
    g.NativeStep (Option.Rel g.Values) (Native.optionalNamed name)
      (Native.optionalNamed name) := by
  refine fun args args' hArgs => .plain fun s t hStores r s' hRun => ?_
  unfold Native.optionalNamed at hRun
  rcases rel_cases (hArgs.takeNamed name) with ⟨hx, hy⟩ | ⟨x, y, hx, hy, hTaken⟩
  · simp only [hx] at hRun
    cases hRun
    exact ⟨(none, args'), t, by simp only [Native.optionalNamed, hy], hStores, .none, hArgs⟩
  · simp only [hx] at hRun
    cases hRun
    exact ⟨(some y.1, y.2), t, by simp only [Native.optionalNamed, hy], hStores,
      .some hTaken.1, hTaken.2⟩

/-- An argument that must be there gives paired values; where it is missing on one side the step
fails. -/
theorem required (name : String) :
    g.NativeStep g.Values (Native.required name) (Native.required name) := by
  refine fun args args' hArgs => .plain fun s t hStores r s' hRun => ?_
  unfold Native.required at hRun
  rcases rel_cases (hArgs.take name) with ⟨hx, hy⟩ | ⟨x, y, hx, hy, hTaken⟩
  · simp only [hx] at hRun
    cases hRun
  · simp only [hx] at hRun
    cases hRun
    exact ⟨y, t, by simp only [Native.required, hy], hStores, hTaken⟩

theorem rest : g.NativeStep (List.Forall₂ g.Values) Native.rest Native.rest := by
  refine fun args args' hArgs => .plain fun s t hStores r s' hRun => ?_
  cases hRun
  exact ⟨_, t, rfl, hStores, hArgs.positional, .nil, hArgs.named⟩

/-- If nothing is left over on one side then nothing is on the other, so that both end well. -/
theorem finish : g.NativeStep Eq Native.finish Native.finish := by
  refine fun args args' hArgs => .plain fun s t hStores r s' hRun => ?_
  unfold Native.finish at hRun
  cases hLeft : args.leftOver? with
  | some fault =>
      simp only [hLeft] at hRun
      cases hRun
  | none =>
      simp only [hLeft] at hRun
      cases hRun
      have hLeft' := hArgs.leftOver?_eq_none hLeft
      exact ⟨((), args'), t, by simp only [Native.finish, hLeft'], hStores, rfl, hArgs⟩

theorem text (what : String) (h : g.Values v w) :
    g.NativeStep Eq (Native.text what v) (Native.text what w) := by
  cases h with
  | text t => exact pure rfl
  | _ => exact fail _

theorem int (what : String) (h : g.Values v w) :
    g.NativeStep Eq (Native.int what v) (Native.int what w) := by
  cases h with
  | int n => exact pure rfl
  | _ => exact fail _

theorem items (what : String) (h : g.Values v w) :
    g.NativeStep g.Items (Native.items what v) (Native.items what w) := by
  cases h with
  | list hPair => exact read fun _ _ hStores => hStores.listAt hPair
  | _ => exact fail _

theorem fields (what : String) (h : g.Values v w) :
    g.NativeStep g.Fields (Native.fields what v) (Native.fields what w) := by
  cases h with
  | record hPair => exact read fun _ _ hStores => hStores.recordAt hPair
  | _ => exact fail _

/-- An optional text is the same on both sides: texts are paired with themselves alone. -/
theorem optionalText (what : String) {v w : Option Value} (h : Option.Rel g.Values v w) :
    g.NativeStep Eq (Native.optionalText what v) (Native.optionalText what w) := by
  cases h with
  | none => exact pure rfl
  | some hv =>
      cases hv with
      | nil => exact pure rfl
      | _ => exact (text what (by constructor <;> assumption)).map fun _ _ => congrArg some

/-- An argument that may be missing, and what is made of it if it is there. -/
theorem given (name : String) {found : Value → Native α} {found' : Value → Native β}
    {missing : Native α} {missing' : Native β}
    (hFound : ∀ v w, g.Values v w → g.NativeStep R (found v) (found' w))
    (hMissing : g.NativeStep R missing missing') : g.NativeStep R (do
      match ← Native.optional name with
      | some v => found v
      | none => missing) (do
      match ← Native.optional name with
      | some v => found' v
      | none => missing') := by
  refine (optional name).bind ?_
  rintro _ _ (hv | _)
  · exact hFound _ _ hv
  · exact hMissing

end NativeStep

/-- A builtin step within a script. -/
theorem Lockstep.native {R : α → β → Prop} {first : Native α} {second : Native β}
    (h : g.NativeStep R first second) {args args' : Eval.Args} (hArgs : g.Args args args') :
    g.Lockstep R (Eval.onStore (first.run' args)) (Eval.onStore (second.run' args')) := by
  apply Lockstep.onStore
  exact (h args args' hArgs).map fun _ _ hr => hr.1

end Pairing

end Metagen
