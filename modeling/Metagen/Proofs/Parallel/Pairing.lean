import Metagen.Proofs.Bindings
import Metagen.Value.Environment
import Mathlib.Data.List.Forall2
import Mathlib.Logic.Relator

/-! Two stores side by side. Two runs of one script make their cells in the same order, but under
numbers of their own. A pairing says which cells stand for each other: some that are there when the
runs start, and from then on the next cell of one run and the next cell of the other. It never
changes, so that whatever is paired once stays paired. -/

namespace Metagen

variable {α β : Type}

/-- Both are there and related, or neither is there. -/
theorem rel_cases {R : α → β → Prop} {a : Option α} {b : Option β} (h : Option.Rel R a b) :
    (a = none ∧ b = none) ∨ ∃ x y, a = some x ∧ b = some y ∧ R x y := by
  cases h with
  | none => exact .inl ⟨rfl, rfl⟩
  | some hRelated => exact .inr ⟨_, _, rfl, rfl, hRelated⟩

theorem isSome_eq_of_rel {R : α → β → Prop} {a : Option α} {b : Option β} (h : Option.Rel R a b) :
    a.isSome = b.isSome := by
  cases h <;> rfl

/-- Which cells of one kind stand for each other. -/
structure Counterparts where
  pairs : Nat → Nat → Prop
  unique : Relator.BiUnique pairs
  /-- How many cells there were in the first store when the cells came to be made in step. -/
  first : Nat
  second : Nat
  later : ∀ n, pairs (first + n) (second + n)

namespace Counterparts

variable {c : Counterparts} {R : α → α → Prop} {xs ys : Array α} {i j : Nat}

/-- As many cells have been made since the start. -/
def InStep (c : Counterparts) (i j : Nat) : Prop := ∃ n, i = c.first + n ∧ j = c.second + n

/-- Cells that stand for each other hold what is related. -/
structure RelatesContents (c : Counterparts) (R : α → α → Prop) (xs ys : Array α) : Prop where
  inStep : c.InStep xs.size ys.size
  related : ∀ i j, c.pairs i j → Option.Rel R xs[i]? ys[j]?

theorem pairs_of_inStep (h : c.InStep i j) : c.pairs i j := by
  obtain ⟨n, rfl, rfl⟩ := h
  exact c.later n

/-- As pairs are unique on both sides, two cells on one side are the same exactly if their partners
are. -/
theorem eq_iff_eq (h : c.pairs i j) {k l : Nat} (h' : c.pairs k l) : i = k ↔ j = l := by
  constructor
  · rintro rfl
    exact c.unique.2 h h'
  · rintro rfl
    exact c.unique.1 h h'

namespace RelatesContents

/-- The next cells stand for each other. -/
theorem next (h : c.RelatesContents R xs ys) : c.pairs xs.size ys.size := pairs_of_inStep h.inStep

/-- The next cells on both sides stand for each other, and what they hold is related. -/
theorem push (h : c.RelatesContents R xs ys) {x y : α} (hNew : R x y) :
    c.RelatesContents R (xs.push x) (ys.push y) := by
  constructor
  · obtain ⟨n, hFirst, hSecond⟩ := h.inStep
    refine ⟨n + 1, ?_, ?_⟩
    · rw [Array.size_push, hFirst, Nat.add_assoc]
    · rw [Array.size_push, hSecond, Nat.add_assoc]
  · intro i j hPair
    rw [Array.getElem?_push, Array.getElem?_push]
    have hLast := eq_iff_eq hPair h.next
    by_cases hi : i = xs.size
    · rw [if_pos hi, if_pos (hLast.1 hi)]
      exact .some hNew
    · rw [if_neg hi, if_neg (mt hLast.2 hi)]
      exact h.related i j hPair

/-- Changing what two paired cells hold keeps stores related: no other pair has one of the cells in
it. -/
theorem modify (h : c.RelatesContents R xs ys) (hPair : c.pairs i j) {change change' : α → α}
    (hChange : ∀ x y, R x y → R (change x) (change' y)) :
    c.RelatesContents R (xs.modify i change) (ys.modify j change') := by
  constructor
  · rw [Array.size_modify, Array.size_modify]
    exact h.inStep
  · intro k l hOther
    rw [Array.getElem?_modify, Array.getElem?_modify]
    have hSame := eq_iff_eq hPair hOther
    have hOld := h.related k l hOther
    by_cases hi : i = k
    · rw [if_pos hi, if_pos (hSame.1 hi)]
      rcases rel_cases hOld with ⟨hx, hy⟩ | ⟨x, y, hx, hy, hRelated⟩
      · rw [hx, hy]
        exact .none
      · rw [hx, hy]
        exact .some (hChange x y hRelated)
    · rw [if_neg hi, if_neg (mt hSame.2 hi)]
      exact hOld

/-- What two paired cells hold is related, also where nothing is there and a default stands for
it. -/
theorem getD (h : c.RelatesContents R xs ys) (hPair : c.pairs i j) {x y : α} (hDefault : R x y) :
    R (xs[i]?.getD x) (ys[j]?.getD y) := by
  rcases rel_cases (h.related i j hPair) with ⟨hx, hy⟩ | ⟨x, y, hx, hy, hRelated⟩
  · rw [hx, hy]
    exact hDefault
  · rw [hx, hy]
    exact hRelated

end RelatesContents

end Counterparts

/-- Which cells of two stores stand for each other. -/
structure Pairing where
  lists : Counterparts
  records : Counterparts
  functions : Counterparts
  scopes : Counterparts
  namespaces : Counterparts

namespace Pairing

/-- Two values that are the same but for the numbers of cells. -/
inductive Values (g : Pairing) : Value → Value → Prop where
  | nil : Values g .nil .nil
  | bool (b : Bool) : Values g (.bool b) (.bool b)
  | int (n : Int64) : Values g (.int n) (.int n)
  | float (x : Float) : Values g (.float x) (.float x)
  | text (s : String) : Values g (.text s) (.text s)
  | list {i j : Nat} (h : g.lists.pairs i j) : Values g (.list i) (.list j)
  | record {i j : Nat} (h : g.records.pairs i j) : Values g (.record i) (.record j)
  | function {i j : Nat} (h : g.functions.pairs i j) : Values g (.function i) (.function j)
  | builtin (b : Builtin) : Values g (.builtin b) (.builtin b)
  | generator : Values g .generator .generator

def Items (g : Pairing) (xs ys : Array Value) : Prop := List.Forall₂ g.Values xs.toList ys.toList

def Entry (g : Pairing) (x y : String × Value) : Prop := x.1 = y.1 ∧ g.Values x.2 y.2

/-- Fields of two records, in the same order. -/
def Fields (g : Pairing) (b c : Bindings Value) : Prop := List.Forall₂ g.Entry b.entries c.entries

/-- The same names are bound, to paired values, in whatever order. -/
def Bound (g : Pairing) (b c : Bindings Value) : Prop :=
  ∀ name, Option.Rel g.Values (b.get? name) (c.get? name)

structure PairsNames (g : Pairing) (n m : Namespace) : Prop where
  bindings : g.Bound n.bindings m.bindings
  globals : n.globals = m.globals

structure Envs (g : Pairing) (env env' : Env) : Prop where
  names : g.namespaces.pairs env.namespaceCell env'.namespaceCell
  inner : List.Forall₂ g.scopes.pairs env.inner env'.inner

/-- Functions that are written alike. The script they were written in may have another number. -/
structure Closures (g : Pairing) (f f' : Closure) : Prop where
  function : f.function = f'.function
  env : g.Envs f.env f'.env

/-- Two stores in which cells that stand for each other hold the same. -/
structure Stores (g : Pairing) (s t : Store) : Prop where
  lists : g.lists.RelatesContents g.Items s.lists t.lists
  records : g.records.RelatesContents g.Fields s.records t.records
  functions : g.functions.RelatesContents g.Closures s.functions t.functions
  scopes : g.scopes.RelatesContents g.Bound s.scopes t.scopes
  namespaces : g.namespaces.RelatesContents g.PairsNames s.namespaces t.namespaces

variable {g : Pairing} {s t : Store} {v w : Value}

/-- The innermost scopes are left together. -/
theorem Envs.pop {env env' : Env} (h : g.Envs env env') : g.Envs env.pop env'.pop := by
  refine ⟨h.names, ?_⟩
  change List.Forall₂ _ env.inner.tail env'.inner.tail
  rw [← List.drop_one, ← List.drop_one]
  exact List.forall₂_drop 1 h.inner

theorem bound_empty : g.Bound {} {} := fun _ => .none

theorem Bound.contains_eq {b c : Bindings Value} (h : g.Bound b c) (name : String) :
    b.contains name = c.contains name := isSome_eq_of_rel (h name)

theorem Bound.insert {b c : Bindings Value} (h : g.Bound b c) (name : String)
    (hv : g.Values v w) : g.Bound (b.insert name v) (c.insert name w) := by
  intro other
  rw [Bindings.get?_insert, Bindings.get?_insert]
  split
  · exact .some hv
  · exact h other

theorem fields_empty : g.Fields {} {} := .nil

theorem lookup_cons_of_ne {name n : String} (h : name ≠ n) (x : Value)
    (rest : List (String × Value)) : ((n, x) :: rest).lookup name = rest.lookup name := by
  rw [List.lookup_cons, beq_false_of_ne h]

/-- Entries with the same names in the same order bind a name to paired values, or both not at
all. -/
theorem lookup_entries {entries entries' : List (String × Value)}
    (h : List.Forall₂ g.Entry entries entries') (name : String) :
    Option.Rel g.Values (entries.lookup name) (entries'.lookup name) := by
  induction h with
  | nil => exact .none
  | @cons x y _ _ hEntry hRest ih =>
      obtain ⟨n, x⟩ := x
      obtain ⟨n', y⟩ := y
      obtain ⟨rfl, hValue⟩ : n = n' ∧ g.Values x y := hEntry
      by_cases hName : name = n
      · subst hName
        simpa using hValue
      · rw [lookup_cons_of_ne hName, lookup_cons_of_ne hName]
        exact ih

theorem Fields.bound {b c : Bindings Value} (h : g.Fields b c) : g.Bound b c := lookup_entries h

theorem Fields.names_eq {b c : Bindings Value} (h : g.Fields b c) : b.names = c.names := by
  unfold Bindings.names entryNames
  unfold Fields at h
  generalize b.entries = entries, c.entries = entries' at h
  induction h with
  | nil => rfl
  | cons hEntry _ ih => rw [List.map_cons, List.map_cons, hEntry.1, ih]

theorem Fields.values {b c : Bindings Value} (h : g.Fields b c) :
    List.Forall₂ g.Values b.values c.values :=
  List.forall₂_map_left_iff.2 (List.forall₂_map_right_iff.2 (h.imp fun _ _ hEntry => hEntry.2))

theorem Fields.size_eq {b c : Bindings Value} (h : g.Fields b c) : b.size = c.size := h.length_eq

/-- Binding a name to paired values keeps fields paired, whether the name is new or not. -/
theorem Fields.insert {b c : Bindings Value} (h : g.Fields b c) (name : String)
    (hv : g.Values v w) : g.Fields (b.insert name v) (c.insert name w) := by
  change List.Forall₂ g.Entry (bindEntry name v b.entries) (bindEntry name w c.entries)
  unfold Fields at h
  generalize b.entries = entries, c.entries = entries' at h
  induction h with
  | nil => exact .cons ⟨rfl, hv⟩ .nil
  | @cons x y _ _ hEntry hRest ih =>
      obtain ⟨n, x⟩ := x
      obtain ⟨n', y⟩ := y
      obtain ⟨rfl, hValue⟩ : n = n' ∧ g.Values x y := hEntry
      rw [bindEntry, bindEntry]
      split
      · exact .cons ⟨rfl, hv⟩ hRest
      · exact .cons ⟨rfl, hValue⟩ ih

/-- Fields stay paired when a name is left out of both. -/
theorem Fields.erase {b c : Bindings Value} (h : g.Fields b c) (name : String) :
    g.Fields (b.erase name) (c.erase name) := by
  change List.Forall₂ g.Entry (b.entries.filter (·.1 != name)) (c.entries.filter (·.1 != name))
  unfold Fields at h
  generalize b.entries = entries, c.entries = entries' at h
  induction h with
  | nil => exact .nil
  | @cons x y _ _ hEntry hRest ih =>
      rw [List.filter_cons, List.filter_cons, hEntry.1]
      split
      · exact .cons hEntry ih
      · exact ih

/-- Fields stay paired when the same names are bound to paired values one after the other. -/
theorem Fields.foldl_insert {entries entries' : List (String × Value)}
    (hEntries : List.Forall₂ g.Entry entries entries') {b c : Bindings Value} (h : g.Fields b c) :
    g.Fields (entries.foldl (fun b entry => b.insert entry.1 entry.2) b)
      (entries'.foldl (fun b entry => b.insert entry.1 entry.2) c) := by
  induction hEntries generalizing b c with
  | nil => exact h
  | @cons x y _ _ hEntry _ ih =>
      apply ih
      change g.Fields (b.insert x.1 x.2) (c.insert y.1 y.2)
      rw [hEntry.1]
      exact h.insert _ hEntry.2

theorem fields_ofList {entries entries' : List (String × Value)}
    (h : List.Forall₂ g.Entry entries entries') :
    g.Fields (.ofList entries) (.ofList entries') := Fields.foldl_insert h fields_empty

namespace Stores

variable {i j : Nat}

theorem listAt (h : g.Stores s t) (hPair : g.lists.pairs i j) :
    g.Items (s.listAt i) (t.listAt j) := h.lists.getD hPair .nil

theorem recordAt (h : g.Stores s t) (hPair : g.records.pairs i j) :
    g.Fields (s.recordAt i) (t.recordAt j) := h.records.getD hPair fields_empty

theorem scopeAt (h : g.Stores s t) (hPair : g.scopes.pairs i j) :
    g.Bound (s.scopeAt i) (t.scopeAt j) := h.scopes.getD hPair bound_empty

theorem namespaceAt (h : g.Stores s t) (hPair : g.namespaces.pairs i j) :
    g.PairsNames (s.namespaceAt i) (t.namespaceAt j) := h.namespaces.getD hPair ⟨bound_empty, rfl⟩

/-- Functions that stand for each other are named the same in messages, since they are written
alike. -/
theorem functionLabel_eq (h : g.Stores s t) (hPair : g.functions.pairs i j) :
    s.functionLabel i = t.functionLabel j := by
  unfold Store.functionLabel
  rcases rel_cases (h.functions.related i j hPair) with ⟨hx, hy⟩ | ⟨f, f', hx, hy, hClosures⟩
  · rw [hx, hy]
  · rw [hx, hy, Option.map_some, Option.map_some, hClosures.function]

theorem newList (h : g.Stores s t) {items items' : Array Value} (hItems : g.Items items items') :
    g.Stores (s.newList items).2 (t.newList items').2 ∧
      g.Values (s.newList items).1 (t.newList items').1 :=
  ⟨{ h with lists := h.lists.push hItems }, .list h.lists.next⟩

theorem newRecord (h : g.Stores s t) {fields fields' : Bindings Value}
    (hFields : g.Fields fields fields') :
    g.Stores (s.newRecord fields).2 (t.newRecord fields').2 ∧
      g.Values (s.newRecord fields).1 (t.newRecord fields').1 :=
  ⟨{ h with records := h.records.push hFields }, .record h.records.next⟩

theorem newFunction (h : g.Stores s t) {f f' : Closure} (hClosures : g.Closures f f') :
    g.Stores (s.newFunction f).2 (t.newFunction f').2 ∧
      g.Values (s.newFunction f).1 (t.newFunction f').1 :=
  ⟨{ h with functions := h.functions.push hClosures }, .function h.functions.next⟩

theorem modifyList (h : g.Stores s t) (hPair : g.lists.pairs i j)
    {change change' : Array Value → Array Value}
    (hChange : ∀ xs ys, g.Items xs ys → g.Items (change xs) (change' ys)) :
    g.Stores (s.modifyList i change) (t.modifyList j change') :=
  { h with lists := h.lists.modify hPair hChange }

theorem modifyRecord (h : g.Stores s t) (hPair : g.records.pairs i j)
    {change change' : Bindings Value → Bindings Value}
    (hChange : ∀ b c, g.Fields b c → g.Fields (change b) (change' c)) :
    g.Stores (s.modifyRecord i change) (t.modifyRecord j change') :=
  { h with records := h.records.modify hPair hChange }

theorem modifyScope (h : g.Stores s t) (hPair : g.scopes.pairs i j)
    {change change' : Bindings Value → Bindings Value}
    (hChange : ∀ b c, g.Bound b c → g.Bound (change b) (change' c)) :
    g.Stores (s.modifyScope i change) (t.modifyScope j change') :=
  { h with scopes := h.scopes.modify hPair hChange }

theorem modifyNamespace (h : g.Stores s t) (hPair : g.namespaces.pairs i j)
    {change change' : Namespace → Namespace}
    (hChange : ∀ n m, g.PairsNames n m → g.PairsNames (change n) (change' m)) :
    g.Stores (s.modifyNamespace i change) (t.modifyNamespace j change') :=
  { h with namespaces := h.namespaces.modify hPair hChange }

/-- The logs need not be the same. -/
theorem logLine (h : g.Stores s t) (line line' : String) :
    g.Stores (s.logLine line) (t.logLine line') :=
  ⟨h.lists, h.records, h.functions, h.scopes, h.namespaces⟩

variable {env env' : Env}

theorem pushEnv (h : g.Stores s t) (hEnv : g.Envs env env') :
    g.Stores (env.push s).2 (env'.push t).2 ∧ g.Envs (env.push s).1 (env'.push t).1 :=
  ⟨{ h with scopes := h.scopes.push bound_empty }, hEnv.names, .cons h.scopes.next hEnv.inner⟩

theorem isGlobal_eq (h : g.Stores s t) (hEnv : g.Envs env env') (name : String) :
    env.isGlobal s name = env'.isGlobal t name := by
  unfold Env.isGlobal
  rw [(h.namespaceAt hEnv.names).globals]

theorem declareGlobal (h : g.Stores s t) (hEnv : g.Envs env env') (name : String) :
    g.Stores (env.declareGlobal s name) (env'.declareGlobal t name) := by
  refine h.modifyNamespace hEnv.names fun n m hNames => ?_
  rw [hNames.globals]
  split
  · exact hNames
  · exact ⟨hNames.bindings, rfl⟩

/-- By induction over the names: declaring them global keeps stores paired. -/
theorem declareGlobals (h : g.Stores s t) (hEnv : g.Envs env env') (names : List String) :
    g.Stores (names.foldl (fun s name => env.declareGlobal s name) s)
      (names.foldl (fun t name => env'.declareGlobal t name) t) := by
  induction names generalizing s t with
  | nil => exact h
  | cons name rest ih => exact ih (h.declareGlobal hEnv name)

theorem defineNamespace (h : g.Stores s t) (hEnv : g.Envs env env') (name : String)
    (hv : g.Values v w) :
    g.Stores (env.defineNamespace s name v) (env'.defineNamespace t name w) :=
  h.modifyNamespace hEnv.names fun _ _ hNames => ⟨hNames.bindings.insert name hv, hNames.globals⟩

/-- A name is bound in the same kind of scope on both sides, since it was declared global in both
directives or in neither. -/
theorem define (h : g.Stores s t) (hEnv : g.Envs env env') (name : String) (hv : g.Values v w) :
    g.Stores (env.define s name v) (env'.define t name w) := by
  have hInner := hEnv.inner
  unfold Env.define
  rw [h.isGlobal_eq hEnv]
  generalize env.inner = cells, env'.inner = cells' at hInner
  cases hInner with
  | nil => exact h.defineNamespace hEnv name hv
  | cons hPair _ =>
      dsimp only
      split
      · exact h.defineNamespace hEnv name hv
      · exact h.modifyScope hPair fun _ _ hBound => hBound.insert name hv

theorem namespaceGet? (h : g.Stores s t) (hEnv : g.Envs env env') (name : String) :
    Option.Rel g.Values (env.namespaceGet? s name) (env'.namespaceGet? t name) :=
  (h.namespaceAt hEnv.names).bindings name

/-- The innermost of paired scopes that bind a name bind it to paired values. -/
theorem findSome?_scopes (h : g.Stores s t) {cells cells' : List Nat}
    (hCells : List.Forall₂ g.scopes.pairs cells cells') (name : String) :
    Option.Rel g.Values (cells.findSome? fun cell => (s.scopeAt cell).get? name)
      (cells'.findSome? fun cell => (t.scopeAt cell).get? name) := by
  induction hCells with
  | nil => exact .none
  | cons hPair _ ih =>
      rw [List.findSome?_cons, List.findSome?_cons]
      rcases rel_cases (h.scopeAt hPair name) with ⟨hx, hy⟩ | ⟨v, w, hx, hy, hv⟩
      · rw [hx, hy]
        exact ih
      · rw [hx, hy]
        exact .some hv

/-- What a name is bound to is paired, whether it is found in a scope or among the names of the
directive. -/
theorem envGet? (h : g.Stores s t) (hEnv : g.Envs env env') (name : String) :
    Option.Rel g.Values (env.get? s name) (env'.get? t name) := by
  unfold Env.get?
  rcases rel_cases (h.findSome?_scopes hEnv.inner name) with ⟨hx, hy⟩ | ⟨v, w, hx, hy, hv⟩
  · rw [hx, hy]
    exact h.namespaceGet? hEnv name
  · rw [hx, hy]
    exact .some hv

/-- The innermost scopes in which a name is bound are paired with each other. -/
theorem find?_scopes (h : g.Stores s t) {cells cells' : List Nat}
    (hCells : List.Forall₂ g.scopes.pairs cells cells') (name : String) :
    Option.Rel g.scopes.pairs (cells.find? fun cell => (s.scopeAt cell).contains name)
      (cells'.find? fun cell => (t.scopeAt cell).contains name) := by
  induction hCells with
  | nil => exact .none
  | cons hPair _ ih =>
      rw [List.find?_cons, List.find?_cons, (h.scopeAt hPair).contains_eq]
      split
      · exact .some hPair
      · exact ih

/-- An assignment to a name succeeds on both sides or on neither and leaves the stores paired. -/
theorem envSet? (h : g.Stores s t) (hEnv : g.Envs env env') (name : String)
    (hv : g.Values v w) :
    Option.Rel g.Stores (env.set? s name v) (env'.set? t name w) := by
  unfold Env.set?
  rcases rel_cases (h.find?_scopes hEnv.inner name) with ⟨hx, hy⟩ | ⟨i, j, hx, hy, hPair⟩
  · rw [hx, hy]
    dsimp only
    rw [isSome_eq_of_rel (h.namespaceGet? hEnv name), h.isGlobal_eq hEnv]
    split
    · exact .some (h.defineNamespace hEnv name hv)
    · exact .none
  · rw [hx, hy]
    exact .some (h.modifyScope hPair fun _ _ hBound => hBound.insert name hv)

end Stores

def self : Pairing :=
  let same : Counterparts :=
    { pairs := Eq
      unique := ⟨fun _ _ _ h h' => h.trans h'.symm, fun _ _ _ h h' => h.symm.trans h'⟩
      first := 0
      second := 0
      later := fun _ => rfl }
  ⟨same, same, same, same, same⟩

/-- Every value stands for itself if every cell does. -/
theorem values_self (v : Value) : self.Values v v := by
  cases v with
  | nil => exact .nil
  | bool b => exact .bool b
  | int n => exact .int n
  | float x => exact .float x
  | text s => exact .text s
  | list cell => exact .list rfl
  | record cell => exact .record rfl
  | function cell => exact .function rfl
  | builtin b => exact .builtin b
  | generator => exact .generator

theorem bound_self (b : Bindings Value) : self.Bound b b := by
  intro name
  cases b.get? name with
  | none => exact .none
  | some v => exact .some (values_self v)

theorem envs_self (env : Env) : self.Envs env env :=
  ⟨rfl, List.forall₂_eq_eq_eq ▸ rfl⟩

/-- An array is related to itself item by item if every item is related to itself. -/
theorem relatesContents_self {R : α → α → Prop} (hSelf : ∀ x, R x x) (xs : Array α) :
    self.lists.RelatesContents R xs xs := by
  refine ⟨⟨xs.size, (Nat.zero_add _).symm, (Nat.zero_add _).symm⟩, ?_⟩
  rintro i j rfl
  cases xs[i]? with
  | none => exact .none
  | some x => exact .some (hSelf x)

theorem items_self (xs : Array Value) : self.Items xs xs :=
  List.forall₂_same.2 fun v _ => values_self v

theorem fields_self (b : Bindings Value) : self.Fields b b :=
  List.forall₂_same.2 fun entry _ => ⟨rfl, values_self entry.2⟩

/-- Every store is paired with itself if each cell stands for itself. -/
theorem stores_self (s : Store) : self.Stores s s where
  lists := relatesContents_self items_self s.lists
  records := relatesContents_self fields_self s.records
  functions := relatesContents_self (fun f => ⟨rfl, envs_self f.env⟩) s.functions
  scopes := relatesContents_self bound_self s.scopes
  namespaces := relatesContents_self (fun n => ⟨bound_self n.bindings, rfl⟩) s.namespaces

end Pairing

end Metagen
