import Metagen.Eval.Arguments
import Metagen.Numeral.Reading
import Metagen.Text.Blank
import Metagen.Text.Casing
import Metagen.Value.Order
import Metagen.Value.Render

/-! What the builtin functions do. -/

namespace Metagen.Eval

open Numeral Text

/-- A number comes before the end of a range, in the direction of its steps. -/
def beforeStop (stop step i : Int64) : Bool := (0 < step && i < stop) || (step < 0 && stop < i)

/-- How far the end of a range is from a number, in the direction of its steps. -/
def distanceToStop (stop step i : Int64) : Nat :=
  if 0 < step then (stop.toInt - i.toInt).toNat else (i.toInt - stop.toInt).toNat

/-- A step that does not leave the words goes towards the end of the range. -/
theorem distanceToStop_lt {stop step i next : Int64} (h : beforeStop stop step i = true)
    (hNext : fitWord (i.toInt + step.toInt) = some next) :
    distanceToStop stop step next < distanceToStop stop step i := by
  have hSum := fitWord_eq_some_iff.1 hNext
  simp only [beforeStop, Bool.or_eq_true, Bool.and_eq_true, decide_eq_true_iff,
    Int64.lt_iff_toInt_lt, Int64.toInt_zero] at h
  simp only [distanceToStop, Int64.lt_iff_toInt_lt, Int64.toInt_zero]
  split <;> omega

/-- Put the numbers from `i` on that come before the end of a range behind some items. A step that
leaves the words is the last one. -/
def rangeFrom (stop step i : Int64) (items : Array Value) : Array Value :=
  if _h : beforeStop stop step i = true then
    match _hNext : fitWord (i.toInt + step.toInt) with
    | some next => rangeFrom stop step next (items.push (.int i))
    | none => items.push (.int i)
  else items
termination_by distanceToStop stop step i
decreasing_by exact distanceToStop_lt _h _hNext

/-- The terms of a range are integers, so that a list of them holds no cells. -/
theorem mem_rangeFrom {stop step i : Int64} {items : Array Value} {v : Value}
    (h : v ∈ rangeFrom stop step i items) : v ∈ items ∨ ∃ n, v = .int n := by
  fun_induction rangeFrom stop step i items with
  | case1 i items hBefore next hNext ih =>
    rcases ih h with hMem | hInt
    · exact (Array.mem_push.1 hMem).imp_right fun hEq => ⟨i, hEq⟩
    · exact .inr hInt
  | case2 i items => exact (Array.mem_push.1 h).imp_right fun hEq => ⟨i, hEq⟩
  | case3 => exact .inl h

/-- The failure of two values that have no order. -/
def unorderedFault (a b : Value) : Value.Unordered → Fault
  | .types => .unordered a.typeName b.typeName
  | .notANumber => .unorderedNumber

/-- The order of two values. -/
def compareValues (a b : Value) : Except Fault Ordering := (a.order b).mapError (unorderedFault a b)

/-- The candidate that no later one beats; a later one beats it when it compares as wanted. -/
def extremeFrom (wanted : Ordering) (best : Value) : List Value → Except Fault Value
  | [] => .ok best
  | v :: rest => do
    let order ← compareValues v best
    extremeFrom wanted (if order == wanted then v else best) rest

/-- The integer that a text stands for: in hexadecimal after `0x`, in decimal otherwise. -/
def readInt (text : String) : Option Int64 :=
  match text.toList with
  | '0' :: 'x' :: digits | '0' :: 'X' :: digits => readWord 16 digits
  | digits => readWord 10 digits

namespace Native

def ofExcept {α : Type} : Except Fault α → Native α
  | .ok a => pure a
  | .error fault => fail fault

def render (v : Value) : Native String := read (v.render ·)

def cText (v : Value) : Native String := fun a s =>
  match v.cText s with
  | .ok text => .ok (text, a) s
  | .error type => .error (.noCText type) s

def length : Value → Native Nat
  | .text t => pure t.length
  | .list cell => read fun s => (s.listAt cell).size
  | .record cell => read fun s => (s.recordAt cell).size
  | v => fail (.noLength v.typeName)

/-- A list of integers: up to a bound, or between two, perhaps in steps. -/
def range : Native Value := do
  let first ← int "range() bound" (← required "start")
  let (start, stop) ← (do
    match ← optional "stop" with
    | some v => return (first, ← int "range() bound" v)
    | none => return (0, first))
  let step ← (do
    match ← optional "step" with
    | some v => int "range() step" v
    | none => return 1)
  if step == 0 then fail .zeroStep
  make (·.newList (rangeFrom stop step start #[]))

def toInt : Value → Native Value
  | .int n => pure (.int n)
  | .bool b => pure (.int (if b then 1 else 0))
  | .text t =>
    match readInt (trim t) with
    | some n => pure (.int n)
    | none => fail (.badInt (trim t))
  | .float x => do
    match classify x with
    | .finite d => return .int (saturate d.trunc)
    | _ => fail (.noInt (← render (.float x)))
  | v => do fail (.noInt (← render v))

def toFloat : Value → Native Value
  | .int n => pure (.float (floatOfInt n.toInt))
  | .float x => pure (.float x)
  | .text t =>
    match readFloat (trim t).toList with
    | some x => pure (.float x)
    | none => fail (.badFloat t)
  | v => do fail (.noFloat (← render v))

/-- The least or the greatest of several values, or of the items of a single list. -/
def extremum (function : Builtin) (wanted : Ordering) : Native Value := do
  let candidates ← (do
    match ← rest with
    | [.list cell] => read fun s => (s.listAt cell).toList
    | candidates => return candidates)
  match candidates with
  | [] => fail (.emptyExtremum function.name)
  | first :: others => ofExcept (extremeFrom wanted first others)

def absolute : Value → Native Value
  | .int n =>
    match fitWord n.toInt.natAbs with
    | some m => pure (.int m)
    | none => fail .absOverflow
  | .float x => pure (.float x.abs)
  | v => fail (.wrongType "abs() argument" "a number" v.typeName)

/-- Texts of the items of a list, one after the other. -/
def join : Native Value := do
  let list ← items "items" (← required "items")
  let separator ← (do
    match ← optional "sep" with
    | some v => text "sep" v
    | none => return ", ")
  return .text (separator.intercalate (← list.toList.mapM render))

/-- The records of a table's rows from row `number` on. A nil row is left out. -/
def tableRows (columns : List String) (number : Nat) : List Value → Native (List Value)
  | [] => pure []
  | .nil :: rest => tableRows columns (number + 1) rest
  | row :: rest => do
    let entries ← items "table() row" row
    if entries.size != columns.length then
      fail (.unequalRow number entries.size columns.length)
    let record ← make (·.newRecord (.ofList (columns.zip entries.toList)))
    return record :: (← tableRows columns (number + 1) rest)

/-- One record per row, with the columns of the header as fields. -/
def table : Native Value := do
  let header ← items "table() header" (← required "header")
  let columns ← header.toList.mapM (text "table() column")
  let records ← tableRows columns 1 (← rest)
  make (·.newList records.toArray)

/-- What a builtin function returns, before left-over arguments are refused. -/
def apply : Builtin → Native Value
  | .len => return .int (.ofNat (← length (← required "value")))
  | .range => range
  | .str => return .text (← render (← required "value"))
  | .int => do toInt (← required "value")
  | .float => do toFloat (← required "value")
  | .upper => return .text (toUpper (← text "text" (← required "text")))
  | .lower => return .text (toLower (← text "text" (← required "text")))
  | .join => join
  | .keys => do
    let record ← fields "record" (← required "record")
    make (·.newList (record.names.map .text).toArray)
  | .min => extremum .min .lt
  | .max => extremum .max .gt
  | .abs => do absolute (← required "value")
  | .cStr => return .text (cString (← text "text" (← required "text")))
  | .cRepr => return .text (← cText (← required "value"))
  | .table => table
  | .fail => do
    match ← optional "message" with
    | some v => fail (.failed (← render v))
    | none => fail (.failed "")
  | .log => do
    let line := " ".intercalate (← (← rest).mapM render)
    change (·.logLine line)
    return .nil
  | .typeOf => return .text (← required "value").typeName

def call (b : Builtin) : Native Value := do
  let result ← apply b
  finish
  return result

end Native

end Metagen.Eval
