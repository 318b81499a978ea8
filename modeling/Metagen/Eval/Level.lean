import Metagen.Eval.Machine

/-! What the rules of evaluation are built on. A rule for one construct does not recurse: it is
given a level, which evaluates the parts of the construct, and which has less fuel than the
construct itself. Fuel bounds the depth of the evaluation and the number of rounds of each loop. -/

namespace Metagen.Eval

open Script

/-- How a statement ends. -/
inductive Flow where
  | normal
  | leave
  | next
  | result (v : Value)

/-- An evaluator of parts. -/
structure Level where
  /-- How many rounds a loop may run. -/
  fuel : Nat
  expr : Expr → EvalM Value
  stmt : Stmt → EvalM Flow
  /-- The call of a value with arguments. -/
  call : Value → Args → EvalM Value

namespace Level

/-- Call a value with positional arguments. -/
def callWith (ev : Level) (function : Value) (positional : List Value) : EvalM Value := do
  ev.call function { callee := ← renderValue function, positional }

/-- Run statements up to the first that does not end normally. -/
def stmts (ev : Level) : List Stmt → EvalM Flow
  | [] => pure .normal
  | s :: rest => do
    match ← ev.stmt s with
    | .normal => stmts ev rest
    | flow => return flow

/-- Run statements in a scope of their own. -/
def block (ev : Level) (b : Block) : EvalM Flow := inNewScope (ev.stmts b.stmts)

end Level

end Metagen.Eval
