import Metagen.Eval.Call
import Metagen.Eval.Generator
import Metagen.Eval.Statement

/-! Running a script: the rules for all constructs tied together by fuel. -/

namespace Metagen.Eval

open Script

mutual

def exprWithin : Nat → Expr → EvalM Value
  | 0, _ => throw .outOfFuel
  | fuel + 1, e =>
    let ev : Level := ⟨fuel, exprWithin fuel, stmtWithin fuel, callWithin fuel⟩
    evalExpr ev (Generator.call ev) e

def stmtWithin : Nat → Stmt → EvalM Flow
  | 0, _ => throw .outOfFuel
  | fuel + 1, s => runStmt ⟨fuel, exprWithin fuel, stmtWithin fuel, callWithin fuel⟩ s

def callWithin : Nat → Value → Args → EvalM Value
  | 0, _, _ => throw .outOfFuel
  | fuel + 1, function, args =>
    callValue ⟨fuel, exprWithin fuel, stmtWithin fuel, callWithin fuel⟩ function args

end

def level (fuel : Nat) : Level := ⟨fuel, exprWithin fuel, stmtWithin fuel, callWithin fuel⟩

/-- Run the statements of a script up to a return statement, if there is one. -/
def runTop (ev : Level) (stmts : List Stmt) : EvalM Unit := do
  match ← ev.stmts stmts with
  | .normal | .result _ => return
  | .leave | .next => fail .strayLoopControl

/-- Run a whole script as script number `unit`, in the scopes of a directive. -/
def runProgram (fuel : Nat) (program : Program) (unit : Nat) (env : Env) : EvalM Unit := do
  modify ({ · with unit, env })
  withFrame { site := .unit unit, line := program.span.start.line, label := none }
    (runTop (level fuel) program.stmts)

/-- Which scopes were open before a script makes no difference to it. -/
theorem runProgram_of_scopes (fuel : Nat) (program : Program) (unit : Nat) (env : Env)
    (m : Machine) :
    runProgram fuel program unit env m = runProgram fuel program unit env { m with env } := rfl

/-- Fuel for every script that ends: nesting and rounds of loops stay far below it. -/
def ampleFuel : Nat := Nat.pow 2 62

end Metagen.Eval
