import Metagen.Eval.Level
import Metagen.Eval.Methods
import Metagen.Eval.Operators

/-! Expressions. Operands are evaluated from left to right, and the running frame then goes back to
the line of the whole expression, so that a failure is told where the expression starts. -/

namespace Metagen.Eval

open Script

def evalArgs (ev : Level) (callee : String) (args : List (Option Ident × Expr)) :
    EvalM Args :=
  args.foldlM (fun (taken : Args) arg => do
    let v ← ev.expr arg.2
    match arg.1 with
    | some name => return { taken with named := taken.named.insert name.name v }
    | none => return { taken with positional := taken.positional ++ [v] }) { callee }

def evalPart (ev : Level) : Script.Part Expr → EvalM String
  | .text t => pure t
  | .hole e => do renderValue (← ev.expr e)

def makeFunction (f : Function) : EvalM Value := do
  let { env, unit, .. } ← get
  makeCell (·.newFunction ⟨f, env, unit⟩)

/-- Call a method. The methods of a record are its fields, before those that all records have. -/
def callMethod (ev : Level) (generate : String → Args → EvalM Value) (receiver : Value)
    (method : String) (args : Args) : EvalM Value := do
  let builtin := onStore ((Native.callMethod receiver method).run' args)
  match receiver with
  | .generator => generate method args
  | .record cell =>
    match ← readStore fun s => (s.recordAt cell).get? method with
    | some member => ev.call member args
    | none => builtin
  | _ => builtin

def evalCall (ev : Level) (generate : String → Args → EvalM Value) (span : Span)
    (callee : Expr) (args : List (Option Ident × Expr)) : EvalM Value := do
  match callee with
  | .field _ object field =>
    let receiver ← ev.expr object
    let args ← evalArgs ev field.name args
    mark span
    callMethod ev generate receiver field.name args
  | _ =>
    let function ← ev.expr callee
    let name ← (match callee with
      | .name _ name => pure name
      | _ => renderValue function)
    let args ← evalArgs ev name args
    mark span
    ev.call function args

/-- Evaluate an expression with an operator between two operands. The logical operators return one
of their operands, and evaluate the right one only if they return it. -/
def evalBinary (ev : Level) (span : Span) (op : BinaryOp) (left right : Expr) :
    EvalM Value := do
  let a ← ev.expr left
  match op with
  | .and => if ← isTrue a then ev.expr right else return a
  | .or => if ← isTrue a then return a else ev.expr right
  | op =>
    let b ← ev.expr right
    mark span
    onStore (applyBinary op a b)

/-- Evaluate an expression; `generate` calls the methods of the generator. -/
def evalExpr (ev : Level) (generate : String → Args → EvalM Value) (e : Expr) :
    EvalM Value := do
  mark e.span
  match e with
  | .int _ n => return .int n
  | .float _ x => return .float x
  | .text _ t => return .text t
  | .interpolation _ parts => return .text (String.join (← parts.mapM (evalPart ev)))
  | .bool _ b => return .bool b
  | .nil _ => return .nil
  | .list _ items =>
    let items ← items.mapM ev.expr
    makeCell (·.newList items.toArray)
  | .record _ fields =>
    let fields ← fields.mapM fun (name, e) => return (name.name, ← ev.expr e)
    makeCell (·.newRecord (.ofList fields))
  | .name _ name => do onStore (lookUp (← get).env name)
  | .call span callee args => evalCall ev generate span callee args
  | .field span object field =>
    let object ← ev.expr object
    mark span
    onStore (fieldOf object field.name)
  | .index span object index =>
    let object ← ev.expr object
    let index ← ev.expr index
    mark span
    onStore (itemOf object index)
  | .binary span op left right => evalBinary ev span op left right
  | .unary _ op operand =>
    let v ← ev.expr operand
    match op with
    | .not => return .bool !(← isTrue v)
    | .neg => onStore (negate v)
  | .lambda f => makeFunction f
  | .paren _ inner => ev.expr inner

end Metagen.Eval
