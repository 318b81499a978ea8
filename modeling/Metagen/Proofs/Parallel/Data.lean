import Metagen.Proofs.Parallel.Pairing
import Metagen.Proofs.Value.Alike

/-! Data beside data. Lists and records of two stores that match and have no functions in them can
stand for each other when two scripts start. What stands for each other when they have ended looks
alike, if there is no function in it. -/

namespace Metagen

variable {α β : Type} {R : Container → Container → Prop} {s t : Store} {env env' : Env}
  {v w : Value}

/-- A relation between items may be replaced by another one that follows for the items that are
there. -/
theorem forall₂_imp_of_mem {P Q : α → β → Prop} {xs : List α} {ys : List β}
    (h : List.Forall₂ P xs ys) (hImp : ∀ x ∈ xs, ∀ y ∈ ys, P x y → Q x y) :
    List.Forall₂ Q xs ys := by
  induction h with
  | nil => exact .nil
  | cons hFirst _ ih =>
      refine .cons (hImp _ List.mem_cons_self _ List.mem_cons_self hFirst) (ih fun x hx y hy => ?_)
      exact hImp x (List.mem_cons_of_mem _ hx) y (List.mem_cons_of_mem _ hy)

namespace Counterparts

variable {pairs : Nat → Nat → Prop}

/-- Some of the cells that are there, and from then on the next ones. -/
def extend (pairs : Nat → Nat → Prop) (unique : Relator.BiUnique pairs) (first second : Nat)
    (made : ∀ i j, pairs i j → i < first ∧ j < second) : Counterparts where
  pairs i j := pairs i j ∨ ∃ n, i = first + n ∧ j = second + n
  unique := by
    constructor
    · rintro i k j (h | ⟨n, rfl, rfl⟩) (h' | ⟨m, rfl, hm⟩)
      · exact unique.1 h h'
      · exact absurd (made _ _ h).2 (by omega)
      · exact absurd (made _ _ h').2 (by omega)
      · omega
    · rintro i j k (h | ⟨n, rfl, rfl⟩) (h' | ⟨m, hm, rfl⟩)
      · exact unique.2 h h'
      · exact absurd (made _ _ h).1 (by omega)
      · exact absurd (made _ _ h').1 (by omega)
      · omega
  first := first
  second := second
  later n := .inr ⟨n, rfl, rfl⟩

/-- So far cells stand for each other that hold what is related. -/
theorem relatesContents_of_start {c : Counterparts} {Q : α → α → Prop} {xs ys : Array α}
    (hFirst : c.first = xs.size) (hSecond : c.second = ys.size)
    (h : ∀ i j, c.pairs i j → c.InStep i j ∨ i < xs.size ∧ j < ys.size ∧
      ∀ x y, xs[i]? = some x → ys[j]? = some y → Q x y) : c.RelatesContents Q xs ys := by
  refine ⟨⟨0, hFirst.symm, hSecond.symm⟩, fun i j hPair => ?_⟩
  rcases h i j hPair with ⟨n, rfl, rfl⟩ | ⟨hi, hj, hRelated⟩
  · rw [hFirst, hSecond, Array.getElem?_eq_none (Nat.le_add_right _ n),
      Array.getElem?_eq_none (Nat.le_add_right _ n)]
    exact .none
  · have hx := Array.getElem?_eq_getElem hi
    have hy := Array.getElem?_eq_getElem hj
    rw [hx, hy]
    exact .some (hRelated _ _ hx hy)

end Counterparts

/-- Containers that stand for each other: what they hold does so too, and they hold no functions. -/
structure DataPairs (R : Container → Container → Prop) (s t : Store) : Prop where
  unique : Relator.BiUnique R
  made : ∀ c d, R c d → s.HasCell c.cell ∧ t.HasCell d.cell
  contents : ∀ c d, R c d → MatchContents R s t c d
  data : ∀ c d, R c d → ∀ f, .function f ∉ s.contents c

namespace Pairing

/-- Some containers and the names of two directives stand for each other. -/
def ofData (h : DataPairs R s t) (hEnv : env.namespaceCell < s.namespaces.size)
    (hEnv' : env'.namespaceCell < t.namespaces.size) : Pairing where
  lists := .extend (fun i j => R (.list i) (.list j))
    ⟨fun _ _ _ hi hj => Container.list.inj (h.unique.1 hi hj),
      fun _ _ _ hi hj => Container.list.inj (h.unique.2 hi hj)⟩
    s.lists.size t.lists.size fun _ _ hPair => h.made _ _ hPair
  records := .extend (fun i j => R (.record i) (.record j))
    ⟨fun _ _ _ hi hj => Container.record.inj (h.unique.1 hi hj),
      fun _ _ _ hi hj => Container.record.inj (h.unique.2 hi hj)⟩
    s.records.size t.records.size fun _ _ hPair => h.made _ _ hPair
  functions := .extend (fun _ _ => False)
    ⟨fun _ _ _ hNone => hNone.elim, fun _ _ _ hNone => hNone.elim⟩
    s.functions.size t.functions.size fun _ _ hNone => hNone.elim
  scopes := .extend (fun _ _ => False)
    ⟨fun _ _ _ hNone => hNone.elim, fun _ _ _ hNone => hNone.elim⟩
    s.scopes.size t.scopes.size fun _ _ hNone => hNone.elim
  namespaces := .extend (fun i j => i = env.namespaceCell ∧ j = env'.namespaceCell)
    ⟨fun _ _ _ hi hj => hi.1.trans hj.1.symm, fun _ _ _ hi hj => hi.2.trans hj.2.symm⟩
    s.namespaces.size t.namespaces.size fun _ _ hPair => ⟨hPair.1 ▸ hEnv, hPair.2 ▸ hEnv'⟩

variable {h : DataPairs R s t} {hEnv : env.namespaceCell < s.namespaces.size}
  {hEnv' : env'.namespaceCell < t.namespaces.size}

/-- Values of data that match stand for each other, since all the cells in them do. -/
theorem values_ofData (hMatch : MatchValue R v w) (hv : ∀ f, v ≠ .function f) :
    (ofData h hEnv hEnv').Values v w := by
  cases hMatch with
  | container hc hd hPair =>
      cases h.contents _ _ hPair with
      | @list i j _ =>
          obtain rfl : v = .list i := by cases v <;> cases hc; rfl
          obtain rfl : w = .list j := by cases w <;> cases hd; rfl
          exact .list (.inl hPair)
      | @record i j _ =>
          obtain rfl : v = .record i := by cases v <;> cases hc; rfl
          obtain rfl : w = .record j := by cases w <;> cases hd; rfl
          exact .record (.inl hPair)
  | plain hPlain =>
      cases v with
      | nil => exact .nil
      | bool b => exact .bool b
      | int n => exact .int n
      | float x => exact .float x
      | text s => exact .text s
      | list cell => cases hPlain
      | record cell => cases hPlain
      | function cell => exact (hv cell rfl).elim
      | builtin b => exact .builtin b
      | generator => exact .generator

theorem envs_ofData (hInner : env.inner = []) (hInner' : env'.inner = []) :
    (ofData h hEnv hEnv').Envs env env' := by
  refine ⟨.inl ⟨rfl, rfl⟩, ?_⟩
  rw [hInner, hInner']
  exact .nil

/-- Where two directives start, their stores are paired: what they import was copied from data that
match. -/
theorem stores_ofData (hNames : (ofData h hEnv hEnv').PairsNames (s.namespaceAt env.namespaceCell)
    (t.namespaceAt env'.namespaceCell)) : (ofData h hEnv hEnv').Stores s t where
  lists := by
    refine Counterparts.relatesContents_of_start rfl rfl
      fun i j hPair => hPair.symm.imp_right fun hPair => ?_
    refine ⟨(h.made _ _ hPair).1, (h.made _ _ hPair).2, fun x y hx hy => ?_⟩
    have hContents := (h.contents _ _ hPair).contents
    have hData := h.data _ _ hPair
    simp only [Store.contents, Store.listAt, hx, hy, Option.getD_some] at hContents hData
    refine forall₂_imp_of_mem hContents fun v hv w _ hMatch => values_ofData hMatch ?_
    rintro f rfl
    exact hData f hv
  records := by
    refine Counterparts.relatesContents_of_start rfl rfl
      fun i j hPair => hPair.symm.imp_right fun hPair => ?_
    refine ⟨(h.made _ _ hPair).1, (h.made _ _ hPair).2, fun x y hx hy => ?_⟩
    cases h.contents _ _ hPair with
    | record hFields =>
        have hData := h.data _ _ hPair
        simp only [Store.contents, Store.recordAt, hx, hy, Option.getD_some] at hFields hData
        refine forall₂_imp_of_mem hFields fun v hv w _ hMatch =>
          ⟨hMatch.1, values_ofData hMatch.2 ?_⟩
        rintro f hf
        exact hData f (hf ▸ List.mem_map_of_mem hv)
  functions := Counterparts.relatesContents_of_start rfl rfl
    fun _ _ hPair => .inl (hPair.resolve_left id)
  scopes := Counterparts.relatesContents_of_start rfl rfl
    fun _ _ hPair => .inl (hPair.resolve_left id)
  namespaces := by
    refine Counterparts.relatesContents_of_start rfl rfl fun i j hPair => hPair.symm.imp_right ?_
    rintro ⟨rfl, rfl⟩
    refine ⟨hEnv, hEnv', fun x y hx hy => ?_⟩
    simp only [Store.namespaceAt, hx, hy, Option.getD_some] at hNames
    exact hNames

/-- Lists and records that stand for each other. -/
inductive Containers (g : Pairing) : Container → Container → Prop where
  | list {i j : Nat} (h : g.lists.pairs i j) : Containers g (.list i) (.list j)
  | record {i j : Nat} (h : g.records.pairs i j) : Containers g (.record i) (.record j)

variable {g : Pairing}

/-- Pairs of containers are unique on both sides, as pairs of lists and pairs of records are. -/
theorem biUnique_containers (g : Pairing) : Relator.BiUnique g.Containers := by
  constructor
  · rintro c e d (h | h) (h' | h')
    · exact congrArg _ (g.lists.unique.1 h h')
    · exact congrArg _ (g.records.unique.1 h h')
  · rintro c d e (h | h) (h' | h')
    · exact congrArg _ (g.lists.unique.2 h h')
    · exact congrArg _ (g.records.unique.2 h h')

/-- Paired values that are no functions match, and so does everything inside them by the pairing of
their cells. -/
theorem Values.matchValue (h : g.Values v w) (hPlain : ∀ f k, v = .function f → w ≠ .function k) :
    MatchValue g.Containers v w := by
  cases h with
  | list hPair => exact .container rfl rfl (.list hPair)
  | record hPair => exact .container rfl rfl (.record hPair)
  | function _ => exact (hPlain _ _ rfl rfl).elim
  | _ => exact .plain rfl

/-- What stands for each other looks alike, if there is no function in one of the two. -/
theorem Stores.alike (h : g.Stores s t) (hValues : g.Values v w) (hs : s.Closed)
    (hv : s.HasValue v) (ht : t.Closed) (hw : t.HasValue w) (hData : s.IsData v ∨ t.IsData w) :
    Alike s v t w := by
  let inside : Container → Container → Prop := fun c d =>
    (c ∈ s.reached v ∧ d ∈ t.reached w) ∧ g.Containers c d
  have hPlain : ∀ x y, s.HoldsValue v x → t.HoldsValue w y → ∀ f k, x = .function f →
    y ≠ .function k := by
    rintro x y hx hy f k rfl rfl
    exact hData.elim (fun hNone => hNone f hx) fun hNone => hNone k hy
  have hContents : ∀ {c d}, c ∈ s.reached v → d ∈ t.reached w → ∀ x ∈ s.contents c,
      ∀ y ∈ t.contents d, g.Values x y → MatchValue inside x y := by
    intro c d hc hd x hx y hy hxy
    cases hxy.matchValue (hPlain x y (.inr ⟨c, hc, hx⟩) (.inr ⟨d, hd, hy⟩)) with
    | container hx' hy' hPair =>
        refine .container hx' hy' ⟨⟨?_, ?_⟩, hPair⟩
        · exact Store.mem_reached_of_mem_contents hs hv hc hx hx'
        · exact Store.mem_reached_of_mem_contents ht hw hd hy hy'
    | plain hx' => exact .plain hx'
  have hUnique := g.biUnique_containers
  refine ⟨inside, ⟨fun _ _ _ h h' => hUnique.1 h.2 h'.2, fun _ _ _ h h' => hUnique.2 h.2 h'.2⟩,
    ?_, ?_⟩
  · rintro c d ⟨⟨hc, hd⟩, hPair | hPair⟩
    · exact .list (forall₂_imp_of_mem (h.listAt hPair) (hContents hc hd))
    · refine .record (forall₂_imp_of_mem (h.recordAt hPair) fun x hx y hy hxy => ⟨hxy.1, ?_⟩)
      exact hContents hc hd x.2 (List.mem_map_of_mem hx) y.2 (List.mem_map_of_mem hy) hxy.2
  · cases hValues.matchValue (hPlain v w (.inl rfl) (.inl rfl)) with
    | container hv' hw' hPair =>
        exact .container hv' hw' ⟨⟨Store.root_mem_reached hv', Store.root_mem_reached hw'⟩, hPair⟩
    | plain hv' => exact .plain hv'

end Pairing

end Metagen
