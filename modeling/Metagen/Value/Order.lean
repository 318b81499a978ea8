import Metagen.Numeral.Binary64
import Metagen.Value.Store

/-! Equality and order of values. Numbers are equal by value, whatever their type, and containers
are equal when their contents are; the order of a record's fields does not matter. A container is
equal to itself even if it holds a value that is not, such as not-a-number. -/

namespace Metagen

open Numeral

namespace Value

/-- The number that a value is, as a float. -/
def asFloat? : Value → Option Float
  | int n => some (floatOfInt n.toInt)
  | float x => some x
  | _ => none

def sameItems (same : Value → Value → Bool) : List Value → List Value → Bool
  | [], [] => true
  | a :: as, b :: bs => same a b && sameItems same as bs
  | _, _ => false

def sameFields (same : Value → Value → Bool) (a b : Bindings Value) : Bool :=
  a.size == b.size && a.entries.all fun (k, v) =>
    match b.get? k with
    | some w => same v w
    | none => false

/-- Equality of values whose containers nest less deep than `depth`. -/
def sameTo (s : Store) : Nat → Value → Value → Bool
  | 0, _, _ => false
  | depth + 1, a, b =>
    match a, b with
    | nil, nil | generator, generator => true
    | bool a, bool b => a == b
    | int a, int b => a == b
    | int a, float y => floatOfInt a.toInt == y
    | float x, int b => x == floatOfInt b.toInt
    | float x, float y => x == y
    | text a, text b => a == b
    | list a, list b =>
      a == b || sameItems (sameTo s depth) (s.listAt a).toList (s.listAt b).toList
    | record a, record b => a == b || sameFields (sameTo s depth) (s.recordAt a) (s.recordAt b)
    | function a, function b => a == b
    | builtin a, builtin b => a == b
    | _, _ => false

def same (s : Store) (a b : Value) : Bool := sameTo s maxNesting a b

/-- Why two values have no order. -/
inductive Unordered where
  | types
  | notANumber
  deriving DecidableEq, Repr

/-- Numbers have an order, and so have texts, by their characters. -/
def order : Value → Value → Except Unordered Ordering
  | int a, int b => .ok (compare a b)
  | text a, text b => .ok (compareOfLessAndEq a b)
  | a, b =>
    match a.asFloat?, b.asFloat? with
    | some x, some y =>
      if x < y then .ok .lt else if y < x then .ok .gt else if x == y then .ok .eq
      else .error .notANumber
    | _, _ => .error .types

/-- The place that an index stands for in a sequence; negative indices count from the end. -/
def place? (index : Int) (length : Nat) : Option Nat :=
  let i := if index < 0 then index + length else index
  if 0 ≤ i ∧ i < length then some i.toNat else none

end Value

end Metagen
