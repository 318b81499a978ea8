/-! Values bound to names. A name is bound at most once, and names stay in the order in which they
were first bound: binding a name again replaces its value in place. -/

namespace Metagen

variable {α β : Type}

def entryNames (entries : List (String × α)) : List String := entries.map (·.1)

/-- Entries after a name is bound. -/
def bindEntry (name : String) (value : α) : List (String × α) → List (String × α)
  | [] => [(name, value)]
  | (n, v) :: rest => if n = name then (n, value) :: rest else (n, v) :: bindEntry name value rest

/-- Binding a name adds it behind the others if it is new, and leaves the names as they are if it is
not. -/
theorem entryNames_bindEntry (name : String) (value : α) (entries : List (String × α)) :
    entryNames (bindEntry name value entries) =
      if name ∈ entryNames entries then entryNames entries else entryNames entries ++ [name] := by
  induction entries with
  | nil => simp [bindEntry, entryNames]
  | cons entry rest ih =>
    obtain ⟨n, v⟩ := entry
    by_cases h : n = name
    · simp [bindEntry, entryNames, h]
    · have split : name ∈ entryNames ((n, v) :: rest) ↔ name ∈ entryNames rest := by
        simpa [entryNames] using fun e : name = n => absurd e.symm h
      rw [bindEntry, if_neg h]
      change n :: entryNames (bindEntry name value rest) = _
      rw [ih]
      by_cases m : name ∈ entryNames rest
      · rw [if_pos m, if_pos (split.2 m)]
        rfl
      · rw [if_neg m, if_neg (mt split.1 m)]
        rfl

/-- Names of entries stay distinct, whichever name is bound. -/
theorem nodup_bindEntry (name : String) (value : α) {entries : List (String × α)}
    (h : (entryNames entries).Nodup) : (entryNames (bindEntry name value entries)).Nodup := by
  rw [entryNames_bindEntry]
  split
  · exact h
  · next absent =>
    exact List.nodup_append.2 ⟨h, by simp, fun a ha b hb => by
      simp only [List.mem_singleton] at hb
      exact fun e => absent (hb ▸ e ▸ ha)⟩

/-- Values bound to distinct names, in order. -/
structure Bindings (α : Type) where
  entries : List (String × α) := []
  nodup : (entryNames entries).Nodup := by exact List.nodup_nil

namespace Bindings

instance : Inhabited (Bindings α) := ⟨{}⟩

def empty : Bindings α := {}

def names (b : Bindings α) : List String := entryNames b.entries

def values (b : Bindings α) : List α := b.entries.map (·.2)

def size (b : Bindings α) : Nat := b.entries.length

def isEmpty (b : Bindings α) : Bool := b.entries.isEmpty

def get? (b : Bindings α) (name : String) : Option α := b.entries.lookup name

def contains (b : Bindings α) (name : String) : Bool := (b.get? name).isSome

/-- Bind a name, or replace what it is bound to. -/
def insert (b : Bindings α) (name : String) (value : α) : Bindings α :=
  ⟨bindEntry name value b.entries, nodup_bindEntry name value b.nodup⟩

def ofList (entries : List (String × α)) : Bindings α :=
  entries.foldl (fun b entry => b.insert entry.1 entry.2) {}

def erase (b : Bindings α) (name : String) : Bindings α :=
  ⟨b.entries.filter (·.1 != name), b.nodup.sublist (List.filter_sublist.map _)⟩

def map (f : α → β) (b : Bindings α) : Bindings β :=
  ⟨b.entries.map fun entry => (entry.1, f entry.2), by
    have h := b.nodup
    simpa [entryNames, Function.comp_def] using h⟩

@[simp] theorem names_insert (b : Bindings α) (name : String) (value : α) :
    (b.insert name value).names = if name ∈ b.names then b.names else b.names ++ [name] :=
  entryNames_bindEntry name value b.entries

/-- What was bound last is found under its name, and every other name is bound as before. -/
theorem lookup_bindEntry (name : String) (value : α) (entries : List (String × α))
    (other : String) :
    (bindEntry name value entries).lookup other =
      if other = name then some value else entries.lookup other := by
  have step (n : String) (v : α) (rest : List (String × α)) :
      ((n, v) :: rest).lookup other = if other = n then some v else rest.lookup other := by
    by_cases h : other = n
    · simp [h]
    · rw [List.lookup_cons, beq_false_of_ne h, if_neg h]
  induction entries with
  | nil => exact step name value []
  | cons entry rest ih =>
    obtain ⟨n, v⟩ := entry
    by_cases h : n = name
    · subst h
      simp only [bindEntry, if_true, step]
      split <;> rfl
    · simp only [bindEntry, h, if_false, step, ih]
      by_cases h' : other = n
      · simp [h', h]
      · simp [h']

@[simp] theorem get?_insert (b : Bindings α) (name : String) (value : α) (other : String) :
    (b.insert name value).get? other = if other = name then some value else b.get? other :=
  lookup_bindEntry name value b.entries other

end Bindings

end Metagen
