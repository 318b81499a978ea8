import Metagen.Value.Store

/-! Deep copies. Lists and records are copied with everything in them, each of them once: what has
been met before stands for its copy, also while that is still empty because its items are being
copied. So cells that were shared are shared in the copy, and a container that contains itself is
copied to one that does. Functions are not copied, and not looked into. -/

namespace Metagen

inductive Container where
  | list (cell : Nat)
  | record (cell : Nat)
  deriving DecidableEq, Repr

def Value.container? : Value → Option Container
  | list cell => some (.list cell)
  | record cell => some (.record cell)
  | _ => none

/-- What has been copied so far. The new cells are numbered behind those of the store. -/
structure Copying where
  /-- The copies of the containers that have been met, in the order in which they were met. -/
  copies : List (Container × Value) := []
  lists : Array (Array Value) := #[]
  records : Array (Bindings Value) := #[]

namespace Copying

/-- How many new cells there are of the kind of a container. -/
def count (made : Copying) : Container → Nat
  | .list _ => made.lists.size
  | .record _ => made.records.size

/-- Make an empty cell that is the copy of a container from now on. -/
def start (made : Copying) (c : Container) (copy : Value) : Copying :=
  let copies := made.copies ++ [(c, copy)]
  match c with
  | .list _ => { made with copies, lists := made.lists.push #[] }
  | .record _ => { made with copies, records := made.records.push {} }

end Copying

namespace Store

def contents (s : Store) : Container → List Value
  | .list cell => (s.listAt cell).toList
  | .record cell => (s.recordAt cell).values

/-- A container of the same kind in a new cell. -/
def newCopy (s : Store) (c : Container) (i : Nat) : Value :=
  match c with
  | .list _ => .list (s.lists.size + i)
  | .record _ => .record (s.records.size + i)

/-- Put the copied contents of a container into a new cell. -/
def fill (s : Store) (c : Container) (i : Nat) (values : List Value) (made : Copying) : Copying :=
  match c with
  | .list _ => { made with lists := made.lists.setIfInBounds i values.toArray }
  | .record cell =>
    let fields := Bindings.ofList ((s.recordAt cell).names.zip values)
    { made with records := made.records.setIfInBounds i fields }

def copyEach (copy : Value → Copying → Option (Value × Copying)) :
    List Value → Copying → Option (List Value × Copying)
  | [], made => some ([], made)
  | v :: rest, made => do
    let (first, made) ← copy v made
    let (others, made) ← copyEach copy rest made
    return (first :: others, made)

/-- Copy a value, unless containers that are met for the first time nest too deep. -/
def copyWith (s : Store) : Nat → Value → Copying → Option (Value × Copying)
  | 0, _, _ => none
  | depth + 1, v, made =>
    match v.container? with
    | none => some (v, made)
    | some c =>
      match made.copies.lookup c with
      | some copy => some (copy, made)
      | none => do
        let i := made.count c
        let copy := s.newCopy c i
        let (values, made) ← copyEach (s.copyWith depth) (s.contents c) (made.start c copy)
        return (copy, s.fill c i values made)

/-- The copy of a value, and what was made for it. There is a bound on how deep containers can nest
that are met for the first time. -/
def copied (s : Store) (v : Value) : Value × Copying :=
  (s.copyWith s.nestingBound v {}).getD (v, {})

def deepCopy (s : Store) (v : Value) : Value × Store :=
  let (copy, made) := s.copied v
  (copy, { s with lists := s.lists ++ made.lists, records := s.records ++ made.records })

end Store

end Metagen
