/-! Grouping by key, and repeated items. Order is always that of first appearance. -/

namespace Metagen

variable {Key Item : Type}

section Groups

variable [BEq Key]

/-- Add an item to the first group whose key equals its own, or open a new group at the end. -/
def addToGroup (key : Key) (item : Item) : List (Key × List Item) → List (Key × List Item)
  | [] => [(key, [item])]
  | (k, items) :: rest =>
    if k == key then (k, items ++ [item]) :: rest else (k, items) :: addToGroup key item rest

/-- Items grouped under their keys: keys in order of first appearance, the items of a key in their
order in the list. -/
def groupByKey (pairs : List (Key × Item)) : List (Key × List Item) :=
  pairs.foldl (fun groups pair => addToGroup pair.1 pair.2 groups) []

end Groups

section Repeated

variable [DecidableEq Key]

/-- The first item that equals an earlier one, given those before the list. -/
def firstRepeatedAfter (seen : List Key) : List Key → Option Key
  | [] => none
  | item :: rest => if item ∈ seen then some item else firstRepeatedAfter (item :: seen) rest

/-- The first item that equals an earlier one. -/
def firstRepeated (items : List Key) : Option Key := firstRepeatedAfter [] items

end Repeated

end Metagen
