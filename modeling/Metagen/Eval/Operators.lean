import Metagen.Eval.Functions
import Metagen.Value.Environment

/-! Operators, fields and indices. Arithmetic of integers is exact: a result that does not fit in a
word is a failure, and nothing wraps. -/

namespace Metagen.Eval

open Numeral Script

/-- A value, or a failure; lists may be made. -/
abbrev Operation := EStateM Fault Store Value

/-- The longest text in bytes, or list in items, that a repetition makes. -/
def maxRepeat : Nat := Nat.pow 2 24

/-- An integer that fits in a word. -/
def fitted (op : BinaryOp) (n : Int) : Except Fault Value :=
  match fitWord n with
  | some word => .ok (.int word)
  | none => .error (.overflow op)

/-- The failure of operands that an operator does not take. -/
def unsupported (op : BinaryOp) (a b : Value) : Fault :=
  .unsupportedOperands op a.typeName b.typeName

/-- Arithmetic of integers. The quotient is truncated, and the remainder is never negative; the
remainder is refused where the quotient is. -/
def intArithmetic (op : BinaryOp) (a b : Int64) : Except Fault Value :=
  match op with
  | .add => fitted op (a.toInt + b.toInt)
  | .sub => fitted op (a.toInt - b.toInt)
  | .mul => fitted op (a.toInt * b.toInt)
  | .div => if b = 0 then .error .divisionByZero else fitted op (a.toInt.tdiv b.toInt)
  | .mod =>
    if b = 0 then .error .divisionByZero
    else (fitted op (a.toInt.tdiv b.toInt)).bind fun _ => fitted op (a.toInt % b.toInt)
  | _ => .error (unsupported op (.int a) (.int b))

/-- Arithmetic of numbers of which at least one is a float. -/
def floatArithmetic (op : BinaryOp) (a b : Value) : Except Fault Value :=
  match a.asFloat?, b.asFloat? with
  | some x, some y =>
    match op with
    | .add => .ok (.float (x + y))
    | .sub => .ok (.float (x - y))
    | .mul => .ok (.float (x * y))
    | .div => if y == 0.0 then .error .divisionByZero else .ok (.float (x / y))
    | .mod => if y == 0.0 then .error .divisionByZero else .ok (.float (floatMod x y))
    | _ => .error (unsupported op a b)
  | _, _ => .error (unsupported op a b)

/-- How often something of a length is repeated; a negative count is zero. -/
def repeatCount (count : Int64) (length : Nat) : Except Fault Nat :=
  let n := count.toInt.toNat
  if length * n ≤ maxRepeat then .ok n else .error .repetitionTooLarge

def Operation.ofExcept : Except Fault Value → Operation
  | .ok v => pure v
  | .error fault => throw fault

def Operation.newList (items : Array Value) : Operation := fun s =>
  let (v, s) := s.newList items
  .ok v s

/-- The arithmetic operators, which also join and repeat texts and lists. -/
def arithmetic (op : BinaryOp) (a b : Value) : Operation := do
  match op, a, b with
  | .add, .text s, .text t => return .text (s ++ t)
  | .add, .list c, .list d =>
    let s ← get
    Operation.newList (s.listAt c ++ s.listAt d)
  | .mul, .text t, .int count =>
    match repeatCount count t.utf8ByteSize with
    | .ok n => return .text (if t.isEmpty then "" else n.repeat (· ++ t) "")
    | .error fault => throw fault
  | .mul, .list c, .int count =>
    let items := (← get).listAt c
    match repeatCount count items.size with
    | .ok n => Operation.newList (if items.isEmpty then #[] else n.repeat (· ++ items) #[])
    | .error fault => throw fault
  | op, .int m, .int n => Operation.ofExcept (intArithmetic op m n)
  | op, a, b => Operation.ofExcept (floatArithmetic op a b)

def comparison (a b : Value) (holds : Ordering → Bool) : Operation :=
  Operation.ofExcept ((compareValues a b).map fun order => .bool (holds order))

def applyBinary (op : BinaryOp) (a b : Value) : Operation :=
  match op with
  | .eq => do return .bool (a.same (← get) b)
  | .notEq => do return .bool !(a.same (← get) b)
  | .less => comparison a b (·.isLT)
  | .greater => comparison a b (·.isGT)
  | .lessEq => comparison a b (·.isLE)
  | .greaterEq => comparison a b (·.isGE)
  | op => arithmetic op a b

def negate : Value → Operation
  | .int n =>
    match fitWord (-n.toInt) with
    | some m => pure (.int m)
    | none => throw .negationOverflow
  | .float x => pure (.float (-x))
  | v => throw (.cannotNegate v.typeName)

def fieldOf (object : Value) (field : String) : Operation := do
  match object with
  | .record cell =>
    match ((← get).recordAt cell).get? field with
    | some v => return v
    | none => throw (.noField object.typeName field)
  | .generator => throw (.generatorField field)
  | _ => throw (.noField object.typeName field)

/-- An item of a list, a character of a text, or a field of a record by its name. -/
def itemOf (object index : Value) : Operation := do
  match object, index with
  | .list cell, .int i =>
    let items := (← get).listAt cell
    match (Value.place? i.toInt items.size).bind (items[·]?) with
    | some v => return v
    | none => throw (.listIndex i.toInt)
  | .text t, .int i =>
    match (Value.place? i.toInt t.length).bind (t.toList[·]?) with
    | some c => return .text (String.singleton c)
    | none => throw (.textIndex i.toInt)
  | .record cell, .text key =>
    match ((← get).recordAt cell).get? key with
    | some v => return v
    | none => throw (.noKey key)
  | _, _ => throw (.cannotIndex object.typeName index.typeName)

def setField (object : Value) (field : String) (v : Value) : EStateM Fault Store Unit :=
  match object with
  | .record cell => modify (·.modifyRecord cell (·.insert field v))
  | _ => throw (.cannotSetField field object.typeName)

/-- Replace an item of a list, or a field of a record by its name. -/
def setItem (object index v : Value) : EStateM Fault Store Unit := do
  match object, index with
  | .list cell, .int i =>
    match Value.place? i.toInt ((← get).listAt cell).size with
    | some place => modify (·.modifyList cell (·.setIfInBounds place v))
    | none => throw (.listIndex i.toInt)
  | .record cell, .text key => modify (·.modifyRecord cell (·.insert key v))
  | _, _ => throw (.cannotAssignInto object.typeName index.typeName)

/-- What a name stands for: what it is bound to, or else the generator or a builtin function. -/
def lookUp (env : Env) (name : String) : Operation := do
  match env.get? (← get) name with
  | some v => return v
  | none =>
    if name == "Meta" then return .generator
    match Builtin.ofName? name with
    | some b => return .builtin b
    | none => throw (.unboundName name)

end Metagen.Eval
