import Metagen.Eval.Expression

/-! Statements. -/

namespace Metagen.Eval

open Script

def assign (ev : Level) (v : Value) : Expr → EvalM Unit
  | .name _ name => do
    let m ← get
    match m.env.set? m.store name v with
    | some store => set { m with store }
    | none => fail (.unboundTarget name)
  | .field _ object field => do
    let object ← ev.expr object
    onStore (setField object field.name v)
  | .index _ object index => do
    let object ← ev.expr object
    let index ← ev.expr index
    onStore (setItem object index v)
  | .paren _ inner => assign ev v inner
  | _ => fail .invalidTarget

/-- An assignment to a name changes the store and nothing else, or fails. -/
theorem assign_name (ev : Level) (v : Value) (span : Span) (name : String) (m : Machine) :
    assign ev v (.name span name) m =
      match m.env.set? m.store name v with
      | some store => .ok () { m with store }
      | none => .error (.failed { fault := .unboundTarget name }) m := by
  change (match m.env.set? m.store name v with
    | some store => set { m with store }
    | none => fail _ : EvalM Unit) m = _
  cases m.env.set? m.store name v with
  | none => rfl
  | some store => rfl

/-- Nothing else can be assigned to. -/
theorem assign_of_ne {ev : Level} {v : Value} {target : Expr}
    (hName : ∀ span name, target ≠ .name span name)
    (hField : ∀ span object field, target ≠ .field span object field)
    (hIndex : ∀ span object index, target ≠ .index span object index)
    (hParen : ∀ span inner, target ≠ .paren span inner) :
    assign ev v target = fail .invalidTarget := by
  unfold assign
  split
  · exact (hName _ _ rfl).elim
  · exact (hField _ _ _ rfl).elim
  · exact (hIndex _ _ _ rfl).elim
  · exact (hParen _ _ rfl).elim
  · rfl

def runBranch (ev : Level) : Branch → EvalM Flow
  | .mk _ condition body otherwise => do
    if ← isTrue (← ev.expr condition) then ev.block body
    else match otherwise with
      | .nothing => return .normal
      | .block body => ev.block body
      | .branch next =>
        mark next.span
        runBranch ev next

/-- What a loop over a value runs through: the items of a list, the characters of a text, or the
names of a record's fields. Later changes of the container do not count. -/
def iterated (v : Value) : EvalM (List Value) := do
  match v with
  | .list cell => readStore fun s => (s.listAt cell).toList
  | .text t => return t.toList.map fun c => .text (String.singleton c)
  | .record cell => readStore fun s => (s.recordAt cell).names.map .text
  | v => fail (.notIterable v.typeName)

/-- Run the body of a loop for the item with number `i`, in a scope with the item and perhaps the
number. -/
def runItem (ev : Level) (item : Ident) (index : Option Ident) (body : Block) (i : Nat)
    (v : Value) : EvalM Flow :=
  inNewScope do
    define item.name v
    if let some index := index then define index.name (.int (.ofNat i))
    ev.stmts body.stmts

/-- Run the body of a loop for each item, from number `i` on. -/
def runItems (ev : Level) (item : Ident) (index : Option Ident) (body : Block)
    (i : Nat) : List Value → EvalM Flow
  | [] => pure .normal
  | v :: rest => do
    match ← runItem ev item index body i v with
    | .normal | .next => runItems ev item index body (i + 1) rest
    | .leave => return .normal
    | .result v => return .result v

/-- Run the body of a loop as long as its condition holds, at most a number of times. -/
def runRounds (ev : Level) (span : Span) (condition : Expr) (body : Block) :
    Nat → EvalM Flow
  | 0 => throw .outOfFuel
  | fuel + 1 => do
    mark span
    if ← isTrue (← ev.expr condition) then
      match ← ev.block body with
      | .normal | .next => runRounds ev span condition body fuel
      | .leave => return .normal
      | .result v => return .result v
    else return .normal

/-- Stop because of a statement that stands in no loop, or end the statement as it says. -/
def runLoopControl (word : LoopWord) (flow : Flow) : EvalM Flow := do
  if (← get).loops == 0 then fail (.outsideLoop word) else return flow

/-- Check an assertion, whose message is evaluated only if it fails. -/
def runCheck (ev : Level) (span : Span) (condition : Expr) (message : Option Expr) :
    EvalM Flow := do
  if ← isTrue (← ev.expr condition) then return .normal
  let text ← (match message with
    | some e => do renderValue (← ev.expr e)
    | none => pure "assertion failed")
  mark span
  fail (.assertion text)

def runStmt (ev : Level) (s : Stmt) : EvalM Flow := do
  mark s.span
  match s with
  | .bind _ name value =>
    let v ← ev.expr value
    define name.name v
    return .normal
  | .assign span target value =>
    let v ← ev.expr value
    mark span
    assign ev v target
    return .normal
  | .function f =>
    if let some name := f.name then
      let v ← makeFunction f
      define name.name v
    return .normal
  | .branch b => runBranch ev b
  | .forEach _ item index iterable body =>
    let items ← iterated (← ev.expr iterable)
    withLoop (runItems ev item index body 0 items)
  | .whileTrue span condition body => withLoop (runRounds ev span condition body ev.fuel)
  | .leave _ => runLoopControl .leave .leave
  | .next _ => runLoopControl .next .next
  | .result _ none => return .result .nil
  | .result _ (some e) => return .result (← ev.expr e)
  | .check span condition message => runCheck ev span condition message
  | .globals _ names =>
    changeStore fun env s => names.foldl (fun s name => env.declareGlobal s name.name) s
    return .normal
  | .expr e =>
    discard (ev.expr e)
    return .normal

end Metagen.Eval
