import Metagen.Proofs.Script.Advancing
import Metagen.Proofs.Script.Grammar

/-! The rules of the grammar get on, whatever the tokens are. What holds throughout the reading of a
script, and not only after it, is said with a grammar that is watched: it looks at each round of the
loops over statements, and raises an alarm if the round starts on a full report, gives up, or has in
the end neither read a token nor reported a problem. Whatever an alarm leaves behind, and whatever
the bounds on nesting and on rounds are, the watched grammar does the same as the other. So there is
no alarm, which could not pass unnoticed, and no bound is reached. -/

namespace Metagen.Script

namespace Grammar

/-- Rounds of a loop over statements, until there is nothing left for it. -/
def repeating (done : Reading → Bool) (round : Rule (Option Stmt)) :
    Nat → List Stmt → Rule (List Stmt)
  | 0, before => return before
  | fuel + 1, before => do
    if done (← get) then return before
    let stmt? ← round
    repeating done round fuel (before ++ stmt?.toList)

/-- A block is over at a closing brace, at the end, or when the report is full. -/
def blockDone (r : Reading) : Bool :=
  r.cursor.current.kind = .mark (.symbol .rightBrace) ||
    r.cursor.current.kind = .mark .endOfInput || r.report.isFull

/-- A script is over at the end, or when the report is full. -/
def scriptDone (r : Reading) : Bool :=
  r.cursor.current.kind = .mark .endOfInput || r.report.isFull

theorem blockDone_of_isFull {r : Reading} (h : r.report.isFull = true) : blockDone r = true := by
  simp [blockDone, h]

theorem scriptDone_of_isFull {r : Reading} (h : r.report.isFull = true) : scriptDone r = true := by
  simp [scriptDone, h]

theorem blockDone_pad (junk : List Token) (r : Reading) : blockDone (r.pad junk) = blockDone r :=
  rfl

theorem scriptDone_pad (junk : List Token) (r : Reading) : scriptDone (r.pad junk) = scriptDone r :=
  rfl

/-- A round of a loop: a statement, after which reading goes on where the next one may start. -/
def recovering (statement : Rule Stmt) : Rule (Option Stmt) := do
  let stmt? ← Rule.orElseNone statement
  if stmt?.isNone then Rule.resync
  Rule.skipNewlines
  return stmt?

/-- A round between blocks, where no brace is open. -/
def topRound (statement : Rule Stmt) : Rule (Option Stmt) := do
  if ← Rule.at? (.symbol .rightBrace) then
    Rule.problem .unexpectedToken "unmatched '\x7d'"
    discard Rule.advance
    Rule.skipNewlines
    return none
  else recovering statement

/-- A statement that was read goes on behind its line ends; one that was given up goes on at the
next statement. -/
theorem recovering_run (statement : Rule Stmt) (r : Reading) :
    recovering statement r = match statement r with
    | .ok stmt s => .ok (some stmt) { s with cursor := s.cursor.skipNewlines }
    | .error () s => .ok none { s with cursor := s.cursor.resync.skipNewlines } := by
  change EStateM.bind (Rule.orElseNone statement) _ r = _
  rw [EStateM.bind, Rule.orElseNone]
  cases statement r <;> rfl

/-- A statement that may fail, and the recovery behind it, come before the rest of the
statements. -/
theorem recovering_bind (statement : Rule Stmt) (rest : Option Stmt → Rule (List Stmt)) :
    (do
      let stmt? ← Rule.orElseNone statement
      if stmt?.isNone then Rule.resync
      Rule.skipNewlines
      rest stmt?) = recovering statement >>= rest := by
  funext r
  change EStateM.bind (Rule.orElseNone statement) _ r =
    EStateM.bind (EStateM.bind (Rule.orElseNone statement) _) rest r
  rw [EStateM.bind, EStateM.bind, EStateM.bind, Rule.orElseNone]
  cases statement r <;> rfl

/-- The statements of a block are a loop of rounds, each of which reads a statement or recovers. -/
theorem statements_eq (statement : Rule Stmt) (n : Nat) (before : List Stmt) :
    statements statement n before = repeating blockDone (recovering statement) n before := by
  induction n generalizing before with
  | zero => rfl
  | succ n ih =>
      funext r
      change (if blockDone r = true then Pure.pure before else _ : Rule (List Stmt)) r =
        (if blockDone r = true then Pure.pure before else _ : Rule (List Stmt)) r
      split
      · rfl
      · rw [recovering_bind]
        exact congrFun (congrArg _ (funext fun stmt? => ih _)) r

/-- The statements of the top level are a loop of rounds, each of which reads a statement or
recovers. -/
theorem topLevel_eq (statement : Rule Stmt) (n : Nat) (before : List Stmt) :
    topLevel statement n before = repeating scriptDone (topRound statement) n before := by
  induction n generalizing before with
  | zero => rfl
  | succ n ih =>
      funext r
      change (if scriptDone r = true then Pure.pure before else _ : Rule (List Stmt)) r =
        (if scriptDone r = true then Pure.pure before else _ : Rule (List Stmt)) r
      split
      · rfl
      · refine congrFun (?_ : (Rule.at? (.symbol .rightBrace) >>= fun found => _) = _) r
        rw [topRound, bind_assoc]
        refine congrArg _ (funext fun found => ?_)
        cases found
        · exact (recovering_bind _ _).trans (congrArg _ (funext fun stmt? => ih _))
        · simp only [if_pos, bind_assoc, pure_bind, ih, Option.toList_none, List.append_nil]
          rfl

/-- From one reading to the other, a token has been read or a problem has been reported. -/
def Moved (r s : Reading) : Prop :=
  s.cursor.upcoming.length < r.cursor.upcoming.length ∨ r.report.total < s.report.total

instance (r s : Reading) : Decidable (Moved r s) := inferInstanceAs (Decidable (_ ∨ _))

/-- Run a round that is not to start on a full report nor to give up, and is to read a token or
report a problem. Otherwise, raise the alarm, which may put any reading in place of this one. -/
def watching (alarm : EStateM.Result Unit Reading (Option Stmt)) (round : Rule (Option Stmt)) :
    Rule (Option Stmt) := fun r =>
  if r.report.isFull then alarm
  else match round r with
    | .ok stmt? s => if Moved r s then .ok stmt? s else alarm
    | .error _ _ => alarm

section

variable (alarm : EStateM.Result Unit Reading (Option Stmt))

/-- Statements between braces, with an eye on each round. -/
def blockWatching (statement : Rule Stmt) : Rule Block := do
  let start ← Rule.currentSpan
  Rule.expect (.symbol .leftBrace)
  Rule.skipNewlines
  let stmts ← repeating blockDone (watching alarm (recovering statement)) (← Rule.rounds) []
  Rule.expect (.symbol .rightBrace)
  return .mk (← spanFrom start) stmts

mutual

def expressionWatched : Nat → Rule Expr
  | 0 => Rule.fail
  | fuel + 1 => nested (operators (unaryWatched fuel))

def unaryWatched : Nat → Rule Expr
  | 0 => Rule.fail
  | fuel + 1 => unaryOf (unaryWatched fuel) (postfixesWatched fuel)

def postfixesWatched : Nat → Rule Expr
  | 0 => Rule.fail
  | fuel + 1 => postfixesOf (expressionWatched fuel) (primaryWatched fuel)

def primaryWatched : Nat → Rule Expr
  | 0 => Rule.fail
  | fuel + 1 => primaryOf (expressionWatched fuel) (functionWatched fuel false)

def functionWatched : Nat → Bool → Rule Function
  | 0, _ => Rule.fail
  | fuel + 1, named => functionOf (blockWatched fuel) named

def blockWatched : Nat → Rule Block
  | 0 => Rule.fail
  | fuel + 1 => blockWatching alarm (statementWatched fuel)

def branchWatched : Nat → Rule Branch
  | 0 => Rule.fail
  | fuel + 1 => branchOf (expressionWatched fuel) (blockWatched fuel) (branchWatched fuel)

def statementWatched : Nat → Rule Stmt
  | 0 => Rule.fail
  | fuel + 1 =>
    statementOf (expressionWatched fuel) (postfixesWatched fuel) (functionWatched fuel true)
      (blockWatched fuel) (branchWatched fuel)

end

/-- A whole script, read with an eye on each round of its loops over statements. -/
def programWatched (fuel : Nat) : Rule Program := do
  Rule.skipNewlines
  let start ← Rule.currentSpan
  let stmts ← repeating scriptDone (watching alarm (topRound (statementWatched alarm fuel)))
    (← Rule.rounds) []
  return ⟨← spanFrom start, stmts⟩

end

end Grammar

namespace AdvancesAlike

open Grammar

variable {junk : List Token} {most least : Nat}

section

variable {operand operand' : Rule Expr}

/-- Joined operands advance alike, since there are enough rounds for the tokens that are left. -/
theorem moreOperands {operators : Operators} (hEnd : operators (.mark .endOfInput) = none)
    (hOperand : ∀ c ≤ most, AdvancesAlike junk c 1 operand operand') (crossing : Bool) {n n' : Nat}
    (hRounds : most < n) (hRounds' : most < n') (left : Expr) :
    AdvancesAlike junk most 0 (Grammar.moreOperands operators crossing operand n left)
      (Grammar.moreOperands operators crossing operand' n' left) := by
  induction n generalizing most n' left with
  | zero => exact (Nat.not_lt_zero _ hRounds).elim
  | succ n ih =>
      obtain ⟨n', rfl⟩ := Nat.exists_eq_add_of_lt (Nat.zero_lt_of_lt hRounds')
      rw [Nat.zero_add] at hRounds' ⊢
      refine bindPeek fun k => ?_
      cases hOperator : operators k with
      | none => exact (pure left).here
      | some op =>
          refine .bindDiscard (ReadsOn.ne_endOfInput_of_operator hEnd hOperator) fun c hc => ?_
          have hRight : AdvancesAlike junk c 0
              (do
                let right ← operand
                Grammar.moreOperands operators crossing operand n (joined left op right))
              (do
                let right ← operand'
                Grammar.moreOperands operators crossing operand' n' (joined left op right)) :=
            (hOperand c (by omega)).bindRead fun d hd right =>
              ih (fun e he => hOperand e (by omega)) (by omega) (by omega) _
          split
          · exact bindSkip hRight
          · exact hRight

/-- Joined operands advance by one token at least, which their first operand reads. -/
theorem leftJoined {operators : Operators} (hEnd : operators (.mark .endOfInput) = none)
    (hOperand : ∀ c ≤ most, AdvancesAlike junk c 1 operand operand') (crossing : Bool) :
    AdvancesAlike junk most 1 (Grammar.leftJoined operators crossing operand)
      (Grammar.leftJoined operators crossing operand') := by
  refine (hOperand most (Nat.le_refl _)).bindRead fun c hc left => ?_
  refine bindRounds fun d hd n n' hn hn' => ?_
  exact moreOperands hEnd (fun e he => hOperand e (by omega)) crossing (by omega) (by omega) left

/-- A comparison advances by one token at least, as its operands do. -/
theorem compared (hOperand : ∀ c ≤ most, AdvancesAlike junk c 1 operand operand') :
    AdvancesAlike junk most 1 (Grammar.compared operand) (Grammar.compared operand') := by
  refine (hOperand most (Nat.le_refl _)).bindRead fun c hc left => bindPeek fun k => ?_
  cases hOperator : comparison k with
  | none => exact (pure left).here
  | some op =>
      refine .bindDiscard (ReadsOn.ne_endOfInput_of_operator rfl hOperator) fun d hd => ?_
      refine (hOperand d (by omega)).bindRead fun e he right => bindPeek fun next => ?_
      split
      · exact ((problem _ _).bind fun _ => pure _).here
      · exact (pure _).here

theorem operators (hOperand : ∀ c ≤ most, AdvancesAlike junk c 1 operand operand') :
    AdvancesAlike junk most 1 (Grammar.operators operand) (Grammar.operators operand') := by
  refine leftJoined rfl (fun c hc => leftJoined rfl (fun d hd => compared fun e he => ?_) true) true
  refine leftJoined rfl (fun f hf => leftJoined rfl (fun g hg => ?_) false) false
  exact hOperand g (by omega)

/-- An operator in front advances by one token, and its operand by others. -/
theorem unaryOf {unary unary' postfixed postfixed' : Rule Expr}
    (hUnary : ∀ c < most, AdvancesAlike junk c 1 unary unary')
    (hPostfixed : AdvancesAlike junk most 1 postfixed postfixed') :
    AdvancesAlike junk most 1 (Grammar.unaryOf unary postfixed)
      (Grammar.unaryOf unary' postfixed') := by
  refine bindCurrentSpan fun start => bindPeek fun k => ?_
  have hOperator : ∀ op, k ≠ .mark .endOfInput → AdvancesAt k junk most 1
      (do
        discard Rule.advance
        let operand ← unary
        return Expr.unary (start.merge operand.span) op operand)
      (do
        discard Rule.advance
        let operand ← unary'
        return Expr.unary (start.merge operand.span) op operand) := fun op hKind =>
    .bindDiscard hKind fun c hc => (hUnary c hc).bindRead fun _ _ operand => pure _
  split
  next => exact hOperator .not nofun
  next => exact hOperator .neg nofun
  next => exact hPostfixed.here

end

section

variable {expression expression' : Rule Expr}

theorem argumentName : AdvancesAlike junk most 0 Grammar.argumentName Grammar.argumentName := by
  refine bindPeek fun k => .bindPeekNext fun next next' hSame => ?_
  by_cases hEnd : k = .mark .endOfInput
  · subst hEnd
    exact (pure none).here.before
  · rw [hSame hEnd]
    split
    · exact .bindName fun c hc span => .bindDiscard nofun fun d hd => bindSkip (pure _)
    · exact (pure none).here.before

theorem argument (hExpression : AdvancesAlike junk most 1 expression expression')
    (before : List (Option Ident × Expr)) :
    AdvancesAlike junk most 1 (Grammar.argument expression before)
      (Grammar.argument expression' before) := by
  refine argumentName.bind fun name => hExpression.bindRead fun c hc value => ?_
  cases name with
  | none => exact problemIf (pure _)
  | some n => exact problemIf (pure _)

/-- What follows an expression advances alike, since there are enough rounds for the tokens that are
left. -/
theorem morePostfixes (hExpression : ∀ c < most, AdvancesAlike junk c 1 expression expression')
    {n n' : Nat} (hRounds : most < n) (hRounds' : most < n') (object : Expr) :
    AdvancesAlike junk most 0 (Grammar.morePostfixes expression n object)
      (Grammar.morePostfixes expression' n' object) := by
  induction n generalizing most n' object with
  | zero => exact (Nat.not_lt_zero _ hRounds).elim
  | succ n ih =>
      obtain ⟨n', rfl⟩ := Nat.exists_eq_add_of_lt (Nat.zero_lt_of_lt hRounds')
      rw [Nat.zero_add] at hRounds' ⊢
      have hNext : ∀ c < most, ∀ object, AdvancesAlike junk c 0
          (Grammar.morePostfixes expression n object)
          (Grammar.morePostfixes expression' n' object) := fun c hc object =>
        ih (fun d hd => hExpression d (by omega)) (by omega) (by omega) object
      refine bindPeek fun k => ?_
      split
      next =>
        refine .bindDiscard nofun fun c hc => ?_
        exact expectFieldName.bindRead fun d hd field => hNext d (by omega) _
      next =>
        refine .bindDiscard nofun fun c hc => ?_
        refine (separatedUpTo (by simp) fun d hd => argument (hExpression d (by omega))).bind
          fun args => ?_
        exact bindPreviousSpan fun span => hNext c hc _
      next =>
        refine .bindDiscard nofun fun c hc => bindSkip ?_
        refine (hExpression c hc).bindRead fun d hd index => bindSkip ?_
        exact bindExpect (by simp) fun e he => bindPreviousSpan fun span => hNext e (by omega) _
      next => exact (pure object).here

/-- An expression with all that follows it advances by one token at least, which its first part
reads. -/
theorem postfixesOf {primary primary' : Rule Expr}
    (hExpression : ∀ c < most, AdvancesAlike junk c 1 expression expression')
    (hPrimary : AdvancesAlike junk most 1 primary primary') :
    AdvancesAlike junk most 1 (Grammar.postfixesOf expression primary)
      (Grammar.postfixesOf expression' primary') := by
  refine hPrimary.bindRead fun c hc object => bindRounds fun d hd n n' hn hn' => ?_
  exact morePostfixes (fun e he => hExpression e (by omega)) (by omega) (by omega) object

/-- Holes of a string advance alike, since there are enough rounds for the tokens that are left. -/
theorem holes (hExpression : ∀ c < most, AdvancesAlike junk c 1 expression expression') {n n' : Nat}
    (hRounds : most < n) (hRounds' : most < n') (before : List (Part Expr)) :
    AdvancesAlike junk most 0 (Grammar.holes expression n before)
      (Grammar.holes expression' n' before) := by
  induction n generalizing most n' before with
  | zero => exact (Nat.not_lt_zero _ hRounds).elim
  | succ n ih =>
      obtain ⟨n', rfl⟩ := Nat.exists_eq_add_of_lt (Nat.zero_lt_of_lt hRounds')
      rw [Nat.zero_add] at hRounds' ⊢
      refine bindExpect (by simp) fun c hc => bindSkip ?_
      refine (hExpression c hc).bindRead fun d hd inner => bindSkip ?_
      refine bindExpect (by simp) fun e he => bindPeek fun k => ?_
      split
      next =>
        refine .bindDiscard nofun fun f hf => ?_
        exact ih (fun g hg => hExpression g (by omega)) (by omega) (by omega) _
      next => exact .bindDiscard nofun fun f hf => pure _
      next => exact (problemFail _ _).here

/-- An interpolated string advances alike as the expressions in its holes do. -/
theorem interpolation (hExpression : ∀ c < most, AdvancesAlike junk c 1 expression expression')
    (first : String) (start : Span) :
    AdvancesAlike junk most 0 (Grammar.interpolation expression first start)
      (Grammar.interpolation expression' first start) := by
  refine bindRounds fun c hc n n' hn hn' => ?_
  refine (holes (fun d hd => hExpression d (by omega)) (by omega) (by omega) _).bind
    fun parts => ?_
  exact bindSpanFrom fun span => pure _

theorem recordField (hExpression : ∀ c < most, AdvancesAlike junk c 1 expression expression')
    (before : List (Ident × Expr)) :
    AdvancesAlike junk most 1 (Grammar.recordField expression before)
      (Grammar.recordField expression' before) := by
  refine expectFieldName.bindRead fun c hc key => problemIf ?_
  refine bindExpect (by simp) fun d hd => bindSkip ?_
  exact (hExpression d (by omega)).bindRead fun e he value => pure _

/-- A literal, a name, a function, or an expression in brackets advances by one token at least. -/
theorem primaryOf {lambda lambda' : Rule Function}
    (hExpression : ∀ c < most, AdvancesAlike junk c 1 expression expression')
    (hLambda : AdvancesAt (.mark (.keyword .fnWord)) junk most 1 lambda lambda') :
    AdvancesAlike junk most 1 (Grammar.primaryOf expression lambda)
      (Grammar.primaryOf expression' lambda') := by
  refine bindCurrentSpan fun start => bindPeek fun k => ?_
  have hSingle : ∀ e : Expr, k ≠ .mark .endOfInput → AdvancesAt k junk most 1
      (do
        discard Rule.advance
        return e)
      (do
        discard Rule.advance
        return e) := fun e hKind => .bindDiscard hKind fun _ _ => pure e
  cases k with
  | int n => exact hSingle _ nofun
  | float x => exact hSingle _ nofun
  | text s => exact hSingle _ nofun
  | name s => exact hSingle _ nofun
  | textStart first =>
      exact .bindDiscard nofun fun c hc =>
        interpolation (fun d hd => hExpression d (by omega)) first start
  | textPart s => exact (unexpected _).here
  | textEnd s => exact (unexpected _).here
  | mark mark =>
      cases mark with
      | keyword word =>
          cases word with
          | trueWord => exact hSingle _ nofun
          | falseWord => exact hSingle _ nofun
          | nilWord => exact hSingle _ nofun
          | fnWord => exact hLambda.bindRead fun c hc function => pure _
          | _ => exact (unexpected _).here
      | symbol symbol =>
          cases symbol with
          | leftBracket =>
              refine .bindDiscard nofun fun c hc => ?_
              refine (separatedUpTo (by simp) fun d hd _ => hExpression d (by omega)).bind
                fun items => ?_
              exact bindSpanFrom fun span => pure _
          | leftBrace =>
              refine .bindDiscard nofun fun c hc => ?_
              refine (separatedUpTo (by simp) fun d hd => recordField fun e he => ?_).bind
                fun fields => ?_
              · exact hExpression e (by omega)
              · exact bindSpanFrom fun span => pure _
          | leftParen =>
              refine .bindDiscard nofun fun c hc => bindSkip ?_
              refine (hExpression c hc).bindRead fun d hd inner => bindSkip ?_
              exact bindExpect (by simp) fun e he => bindSpanFrom fun span => pure _
          | _ => exact (unexpected _).here
      | _ => exact (unexpected _).here

end

theorem parameter (before : List Ident) :
    AdvancesAlike junk most 1 (Grammar.parameter before) (Grammar.parameter before) :=
  bindName fun _ _ name => problemIf (pure name)

/-- A function advances from its word on, as its block does behind that. -/
theorem functionOf {block block' : Rule Block}
    (hBlock : ∀ c < most, AdvancesAlike junk c 1 block block')
    (named : Bool) : AdvancesAt (.mark (.keyword .fnWord)) junk most 1
      (Grammar.functionOf block named) (Grammar.functionOf block' named) := by
  refine .bindCurrentSpan fun start => .bindDiscard nofun fun c hc => ?_
  have hRest : ∀ d ≤ c, ∀ name : Option Ident, AdvancesAlike junk d 0
      (do
        Rule.expect (.symbol .leftParen)
        let params ← Rule.separatedUpTo (.symbol .rightParen) Grammar.parameter
        let body ← block
        return Function.mk (← Grammar.spanFrom start) name params body)
      (do
        Rule.expect (.symbol .leftParen)
        let params ← Rule.separatedUpTo (.symbol .rightParen) Grammar.parameter
        let body ← block'
        return Function.mk (← Grammar.spanFrom start) name params body) := by
    intro d hd name
    refine bindExpect (by simp) fun e he => ?_
    refine (separatedUpTo (by simp) fun f _ => parameter).bind fun params => ?_
    exact (hBlock e (by omega)).bindRead fun f hf body => bindSpanFrom fun span => pure _
  cases named with
  | true => exact (expectName.map some).bindRead fun d hd name => hRest d hd.le name
  | false => exact hRest c (Nat.le_refl _) none

end AdvancesAlike

/-- A round of a loop over statements does not give up, and reads a token or reports a problem. -/
def RoundsAdvance (junk : List Token) (most : Nat) (round round' : Rule (Option Stmt)) : Prop :=
  ∀ r, r.Ended → r.ahead ≤ most → r.report.isFull = false → ∃ stmt? s, round r = .ok stmt? s ∧
    round' (r.pad junk) = .ok stmt? (s.pad junk) ∧ r.MovesTo s ∧ Grammar.Moved r s

namespace RoundsAdvance

open Grammar

variable {junk : List Token} {most : Nat} {round round' : Rule (Option Stmt)}
  {statement statement' : Rule Stmt}

/-- A round that reads a statement or recovers does not give up: it reads a token or reports a
problem. -/
theorem recovering (h : AdvancesAlike junk most 1 statement statement') :
    RoundsAdvance junk most (recovering statement) (recovering statement') := by
  intro r hEnded hMost _
  have hOutcome := h r hEnded hMost
  rw [recovering_run, recovering_run]
  cases hStmt : statement r with
  | ok stmt s =>
      rw [hStmt] at hOutcome
      obtain ⟨hOther, hMoves, hRead⟩ := hOutcome
      have hPass := hMoves.ended.movesTo_skipNewlines
      refine ⟨_, _, rfl, ?_, hMoves.trans hPass, .inl (Nat.lt_of_le_of_lt hPass.ahead hRead)⟩
      rw [hOther]
      exact congrArg _ (hMoves.ended.skipNewlines_pad junk)
  | error failure s =>
      rw [hStmt] at hOutcome
      obtain ⟨hOther, hMoves, hProblem⟩ := hOutcome
      have hResync := hMoves.ended.movesTo_resync
      have hPass := hResync.ended.movesTo_skipNewlines
      have hPad := hResync.ended.skipNewlines_pad junk
      rw [← hMoves.ended.resync_pad] at hPad
      refine ⟨_, _, rfl, ?_, (hMoves.trans hResync).trans hPass, .inr hProblem⟩
      rw [hOther]
      exact congrArg _ hPad

/-- A closing brace that nothing opened is a problem, and is read. -/
theorem topRound (h : AdvancesAlike junk most 1 statement statement') :
    RoundsAdvance junk most (topRound statement) (topRound statement') := by
  intro r hEnded hMost hRoom
  change ∃ stmt? s, (if decide (r.cursor.current.kind = .mark (.symbol .rightBrace)) = true then _
      else Grammar.recovering statement : Rule (Option Stmt)) r = .ok stmt? s ∧
    (if decide (r.cursor.current.kind = .mark (.symbol .rightBrace)) = true then _
      else Grammar.recovering statement' : Rule (Option Stmt)) (r.pad junk) = _ ∧ _
  by_cases hKind : r.cursor.current.kind = .mark (.symbol .rightBrace)
  · rw [if_pos (decide_eq_true hKind), if_pos (decide_eq_true hKind)]
    have hPush := hEnded.movesTo_push (r.file.problem .unexpectedToken "unmatched '\x7d'"
      r.cursor.current.span)
    have hRead := (hPush.ended.movesTo_advance (by simp [hKind])).1
    have hPass := hRead.ended.movesTo_skipNewlines
    have hPad := hRead.ended.skipNewlines_pad junk
    rw [← hPush.ended.advance_pad (by simp [hKind])] at hPad
    exact ⟨none, _, rfl, congrArg _ hPad, (hPush.trans hRead).trans hPass,
      .inr (Nat.lt_succ_self _)⟩
  · rw [if_neg (by simpa using hKind), if_neg (by simpa using hKind)]
    exact recovering h r hEnded hMost hRoom

/-- There is never an alarm. -/
theorem watching (h : RoundsAdvance junk most round round')
    (alarm : EStateM.Result Unit Reading (Option Stmt)) :
    RoundsAdvance junk most round (watching alarm round') := by
  intro r hEnded hMost hRoom
  obtain ⟨stmt?, s, hRun, hOther, hMoves, hMoved⟩ := h r hEnded hMost hRoom
  refine ⟨stmt?, s, hRun, ?_, hMoves, hMoved⟩
  have hMovedPad : Moved (r.pad junk) (s.pad junk) := by
    refine hMoved.imp_left fun hRead => ?_
    simpa [Reading.pad] using hRead
  change (if r.report.isFull = true then alarm else _) = _
  rw [if_neg (by simp [hRoom]), hOther]
  exact if_pos hMovedPad

/-- What bounds the rounds of a loop: the tokens ahead and the problems that a report has room
for. -/
def room (r : Reading) : Nat := r.ahead + (maxProblems - r.report.total)

/-- A round that has moved leaves less room: fewer tokens, or fewer problems until the report is
full. -/
theorem room_lt {r s : Reading} (hMoves : r.MovesTo s) (hMoved : Moved r s)
    (hRoom : r.report.isFull = false) : room s < room r := by
  have hTotal : r.report.total < maxProblems := by simpa [Report.isFull] using hRoom
  have hAhead := hMoves.ahead
  have hReport := hMoves.total
  unfold room
  rcases hMoved with hRead | hProblem
  · change s.ahead < r.ahead at hRead
    omega
  · omega

/-- A loop ends when it is done, and not because there are no more rounds. -/
theorem agree_repeating {done : Reading → Bool} (h : RoundsAdvance junk most round round')
    (hDone : ∀ r, done (r.pad junk) = done r)
    (hFull : ∀ {r}, r.report.isFull = true → done r = true)
    {n n' : Nat} {r : Reading} (hEnded : r.Ended) (hMost : r.ahead ≤ most) (hRounds : room r < n)
    (hRounds' : room r < n') (before : List Stmt) :
    Agree junk 0 r (repeating done round n before r)
      (repeating done round' n' before (r.pad junk)) := by
  induction n generalizing n' r before with
  | zero => exact (Nat.not_lt_zero _ hRounds).elim
  | succ n ih =>
      obtain ⟨n', rfl⟩ := Nat.exists_eq_add_of_lt (Nat.zero_lt_of_lt hRounds')
      rw [Nat.zero_add] at hRounds' ⊢
      change Agree junk 0 r ((if done r = true then Pure.pure before else _ : Rule (List Stmt)) r)
        ((if done (r.pad junk) = true then Pure.pure before else _ : Rule (List Stmt)) (r.pad junk))
      rw [hDone]
      by_cases hOver : done r = true
      · rw [if_pos hOver, if_pos hOver]
        exact AdvancesAlike.pure before r hEnded (Nat.le_refl _)
      · rw [if_neg hOver, if_neg hOver]
        have hRoom : r.report.isFull = false := by
          simpa using fun h => hOver (hFull h)
        obtain ⟨stmt?, s, hRun, hOther, hMoves, hMoved⟩ := h r hEnded hMost hRoom
        have hLess := room_lt hMoves hMoved hRoom
        change Agree junk 0 r (EStateM.bind round _ r) (EStateM.bind round' _ (r.pad junk))
        rw [EStateM.bind, EStateM.bind, hRun, hOther]
        exact (ih hMoves.ended (Nat.le_trans hMoves.ahead hMost) (by omega) (by omega) _).before
          hMoves hMoves.ahead

/-- The rounds that the tokens allow for are enough. -/
theorem repeating {done : Reading → Bool} (h : RoundsAdvance junk most round round')
    (hDone : ∀ r, done (r.pad junk) = done r)
    (hFull : ∀ {r}, r.report.isFull = true → done r = true)
    {n n' : Nat} (hRounds : most + maxProblems < n) (hRounds' : most + maxProblems < n') :
    AdvancesAlike junk most 0 (repeating done round n []) (repeating done round' n' []) := by
  intro r hEnded hMost
  have hRoom : room r ≤ r.ahead + maxProblems := Nat.add_le_add_left (Nat.sub_le _ _) _
  exact agree_repeating h hDone hFull hEnded hMost (by omega) (by omega) []

end RoundsAdvance

namespace AdvancesAlike

open Grammar

variable {junk : List Token} {most : Nat} {statement statement' : Rule Stmt}

/-- A block that is watched raises no alarm: each of its rounds advances. -/
theorem blockOf (alarm : EStateM.Result Unit Reading (Option Stmt))
    (hStatement : ∀ c < most, AdvancesAlike junk c 1 statement statement') :
    AdvancesAlike junk most 1 (Grammar.blockOf statement) (blockWatching alarm statement') := by
  refine bindCurrentSpan fun start => bindExpect (by simp) fun c hc => bindSkip ?_
  refine bindRounds fun d hd n n' hn hn' => ?_
  have hRounds := (RoundsAdvance.recovering (hStatement d (by omega))).watching alarm
  rw [statements_eq]
  refine (hRounds.repeating (blockDone_pad junk) blockDone_of_isFull (by omega) (by omega)).bind
    fun stmts => ?_
  exact bindExpect (by simp) fun e he => bindSpanFrom fun _ => pure _

section

variable {expression expression' place place' : Rule Expr} {block block' : Rule Block}
  {branch branch' : Rule Branch} {k : TokenKind}

/-- A rule that goes another way at a mark on a later line. -/
theorem crossing {Result : Type} {mark : Mark} (hMark : mark ≠ .endOfInput)
    {rest rest' other other' : Rule Result} (hRest : ∀ c < most, AdvancesAlike junk c 0 rest rest')
    (hOther : AdvancesAlike junk most 0 other other') :
    AdvancesAlike junk most 0
      (do
        if (← get).cursor.pastNewlines = .mark mark then do
          Rule.skipNewlines
          discard Rule.advance
          rest
        else other)
      (do
        if (← get).cursor.pastNewlines = .mark mark then do
          Rule.skipNewlines
          discard Rule.advance
          rest'
        else other') := by
  intro r hEnded hMost
  have hPast : (r.pad junk).cursor.pastNewlines = r.cursor.pastNewlines :=
    congrArg (fun s : Reading => s.cursor.current.kind) (hEnded.skipNewlines_pad junk)
  change Agree junk 0 r ((if r.cursor.pastNewlines = .mark mark then _ else _ : Rule Result) r)
    ((if (r.pad junk).cursor.pastNewlines = .mark mark then _ else _ : Rule Result) (r.pad junk))
  rw [hPast]
  by_cases hKind : r.cursor.pastNewlines = .mark mark
  · rw [if_pos hKind, if_pos hKind]
    have hRead : AdvancesAt (.mark mark) junk most 0 (discard Rule.advance >>= fun _ => rest)
        (discard Rule.advance >>= fun _ => rest') :=
      .bindDiscard (by simpa using hMark) hRest
    have hPass := hEnded.movesTo_skipNewlines
    have hAfter := hRead _ hPass.ended (Nat.le_trans hPass.ahead hMost) hKind
    rw [← hEnded.skipNewlines_pad] at hAfter
    exact hAfter.before hPass hPass.ahead
  · rw [if_neg hKind, if_neg hKind]
    exact hOther r hEnded hMost

/-- What follows otherwise may start on a later line. -/
theorem branchOf
    (hExpression : ∀ c < most, AdvancesAlike junk c 1 expression expression')
    (hBlock : ∀ c < most, AdvancesAlike junk c 1 block block')
    (hBranch : ∀ c < most, AdvancesAt (.mark (.keyword .ifWord)) junk c 1 branch branch') :
    AdvancesAt (.mark (.keyword .ifWord)) junk most 1
      (Grammar.branchOf expression block branch) (Grammar.branchOf expression' block' branch') := by
  refine .bindCurrentSpan fun start => .bindDiscard nofun fun c hc => ?_
  refine (hExpression c hc).bindRead fun d hd condition => ?_
  refine (hBlock d (by omega)).bindRead fun e he body => ?_
  have hRest : ∀ f ≤ e, ∀ otherwise : Otherwise, AdvancesAlike junk f 0
      (do return Branch.mk (← Grammar.spanFrom start) condition body otherwise)
      (do return Branch.mk (← Grammar.spanFrom start) condition body otherwise) :=
    fun f hf otherwise => bindSpanFrom fun _ => pure _
  refine crossing (by simp) (fun f hf => bindAtMark ?_ ?_) (hRest e (Nat.le_refl _) .nothing)
  · refine .bindRead ?_ fun g hg otherwise => hRest g (by omega) otherwise
    exact (hBranch f (by omega)).map _
  · exact ((hBlock f (by omega)).map _).bindRead fun g hg otherwise => hRest g (by omega) otherwise

theorem ended {start : Span} {stmt : Span → Stmt} :
    AdvancesAlike junk most 0 (Grammar.ended start stmt) (Grammar.ended start stmt) :=
  bindSpanFrom fun _ => bindStatementEnd (pure _)

theorem bindStatement (hKind : k ≠ .mark .endOfInput)
    (hExpression : ∀ c < most, AdvancesAlike junk c 1 expression expression') :
    AdvancesAt k junk most 1 (Grammar.bindStatement expression)
      (Grammar.bindStatement expression') := by
  refine .bindAdvance hKind fun c hc t => bindName fun d hd name => ?_
  refine bindExpect (by simp) fun e he => ?_
  exact (hExpression e (by omega)).bindRead fun f hf value => ended

theorem assignStatement (hKind : k ≠ .mark .endOfInput)
    (hExpression : ∀ c < most, AdvancesAlike junk c 1 expression expression')
    (hPlace : ∀ c < most, AdvancesAlike junk c 1 place place') :
    AdvancesAt k junk most 1 (Grammar.assignStatement expression place)
      (Grammar.assignStatement expression' place') := by
  refine .bindAdvance hKind fun c hc t => (hPlace c hc).bindRead fun d hd target => ?_
  have hRest : AdvancesAlike junk d 0
      (do
        Rule.expect (.symbol .assign)
        let value ← expression
        Grammar.ended t.span fun span => .assign span target value)
      (do
        Rule.expect (.symbol .assign)
        let value ← expression'
        Grammar.ended t.span fun span => .assign span target value) := by
    refine bindExpect (by simp) fun e he => ?_
    exact (hExpression e (by omega)).bindRead fun f hf value => ended
  split
  · exact hRest
  · exact problemAtFail _ _ _ rfl rfl

/-- A loop over items advances from its word on, as what is in it does. -/
theorem forStatement (hKind : k ≠ .mark .endOfInput)
    (hExpression : ∀ c < most, AdvancesAlike junk c 1 expression expression')
    (hBlock : ∀ c < most, AdvancesAlike junk c 1 block block') :
    AdvancesAt k junk most 1 (Grammar.forStatement expression block)
      (Grammar.forStatement expression' block') := by
  refine .bindAdvance hKind fun c hc t => bindName fun d hd item => ?_
  have hRest : ∀ e ≤ d, ∀ index : Option Ident, AdvancesAlike junk e 0
      (do
        Rule.expect (.keyword .inWord)
        let iterable ← expression
        let body ← block
        Grammar.ended t.span fun span => .forEach span item index iterable body)
      (do
        Rule.expect (.keyword .inWord)
        let iterable ← expression'
        let body ← block'
        Grammar.ended t.span fun span => .forEach span item index iterable body) := by
    intro e he index
    refine bindExpect (by simp) fun f hf => ?_
    refine (hExpression f (by omega)).bindRead fun g hg iterable => ?_
    exact (hBlock g (by omega)).bindRead fun h hh body => ended
  refine bindEat (by simp) (fun e he => ?_) (hRest d (Nat.le_refl _) none)
  exact (expectName.map some).bindRead fun f hf index => hRest f (by omega) index

theorem whileStatement (hKind : k ≠ .mark .endOfInput)
    (hExpression : ∀ c < most, AdvancesAlike junk c 1 expression expression')
    (hBlock : ∀ c < most, AdvancesAlike junk c 1 block block') :
    AdvancesAt k junk most 1 (Grammar.whileStatement expression block)
      (Grammar.whileStatement expression' block') := by
  refine .bindAdvance hKind fun c hc t => (hExpression c hc).bindRead fun d hd condition => ?_
  exact (hBlock d (by omega)).bindRead fun e he body => ended

theorem resultStatement (hKind : k ≠ .mark .endOfInput)
    (hExpression : ∀ c < most, AdvancesAlike junk c 1 expression expression') :
    AdvancesAt k junk most 1 (Grammar.resultStatement expression)
      (Grammar.resultStatement expression') := by
  refine .bindAdvance hKind fun c hc t => bindPeek fun next => ?_
  have hRest : ∀ d value, AdvancesAlike junk d 0
      (Grammar.ended t.span fun span => .result span value)
      (Grammar.ended t.span fun span => .result span value) := fun _ _ => ended
  split
  · exact (hRest c none).here
  · exact (hRest c none).here
  · exact (hRest c none).here
  · exact (((hExpression c hc).map some).bindRead fun d hd value => hRest d value).here

theorem checkStatement (hKind : k ≠ .mark .endOfInput)
    (hExpression : ∀ c < most, AdvancesAlike junk c 1 expression expression') :
    AdvancesAt k junk most 1 (Grammar.checkStatement expression)
      (Grammar.checkStatement expression') := by
  refine .bindAdvance hKind fun c hc t => (hExpression c hc).bindRead fun d hd condition => ?_
  have hRest : ∀ e message, AdvancesAlike junk e 0
      (Grammar.ended t.span fun span => .check span condition message)
      (Grammar.ended t.span fun span => .check span condition message) := fun _ _ => ended
  refine bindEat (by simp) (fun e he => ?_) (hRest d none)
  exact ((hExpression e (by omega)).map some).bindRead fun f hf message => hRest f message

/-- Names of a list advance alike, since there are enough rounds for the tokens that are left. -/
theorem moreNames {n n' : Nat} (hRounds : most < n) (hRounds' : most < n') (before : List Ident) :
    AdvancesAlike junk most 0 (Grammar.moreNames n before) (Grammar.moreNames n' before) := by
  induction n generalizing most n' before with
  | zero => exact (Nat.not_lt_zero _ hRounds).elim
  | succ n ih =>
      obtain ⟨n', rfl⟩ := Nat.exists_eq_add_of_lt (Nat.zero_lt_of_lt hRounds')
      rw [Nat.zero_add] at hRounds' ⊢
      refine bindEat (by simp) (fun c hc => ?_) (pure before)
      exact bindName fun d hd name => ih (by omega) (by omega) _

theorem globalsStatement (hKind : k ≠ .mark .endOfInput) :
    AdvancesAt k junk most 1 Grammar.globalsStatement Grammar.globalsStatement := by
  refine .bindAdvance hKind fun c hc t => bindName fun d hd first => ?_
  refine bindRounds fun e he n n' hn hn' => ?_
  exact (moreNames (by omega) (by omega) [first]).bind fun names => ended

theorem expressionStatement (hExpression : AdvancesAlike junk most 1 expression expression') :
    AdvancesAlike junk most 1 (Grammar.expressionStatement expression)
      (Grammar.expressionStatement expression') := by
  refine hExpression.bindRead fun c hc value => bindAt fun assigned => ?_
  have hRest : AdvancesAlike junk c 0
      (do
        Rule.expectStatementEnd
        return Stmt.expr value)
      (do
        Rule.expectStatementEnd
        return Stmt.expr value) := bindStatementEnd (pure _)
  have hRefuse : ∀ message, AdvancesAlike junk c 0 (Rule.unexpected message : Rule Unit)
      (Rule.unexpected message) := fun message => unexpected message
  split
  · exact (hRefuse _).bind fun _ => hRest
  · exact hRest

/-- Every statement advances by one token at least, and does the same with and without the watch. -/
theorem statementOf {declaration declaration' : Rule Function}
    (hExpression : ∀ c ≤ most, AdvancesAlike junk c 1 expression expression')
    (hPlace : ∀ c < most, AdvancesAlike junk c 1 place place')
    (hDeclaration : AdvancesAt (.mark (.keyword .fnWord)) junk most 1 declaration declaration')
    (hBlock : ∀ c < most, AdvancesAlike junk c 1 block block')
    (hBranch : AdvancesAt (.mark (.keyword .ifWord)) junk most 1 branch branch') :
    AdvancesAlike junk most 1 (Grammar.statementOf expression place declaration block branch)
      (Grammar.statementOf expression' place' declaration' block' branch') := by
  have hInside : ∀ c < most, AdvancesAlike junk c 1 expression expression' :=
    fun c hc => hExpression c hc.le
  have hOwn := expressionStatement (hExpression most (Nat.le_refl _))
  refine bindPeek fun k => ?_
  split
  next => exact bindStatement nofun hInside
  next => exact assignStatement nofun hInside hPlace
  next =>
    refine .bindPeekNext fun next next' hSame => ?_
    rw [hSame nofun]
    split
    · refine (hDeclaration.bindRead fun c hc function => ?_).before
      exact bindStatementEnd (pure _)
    · exact hOwn.here.before
  next =>
    refine hBranch.bindRead fun c hc first => ?_
    exact bindStatementEnd (pure _)
  next => exact forStatement nofun hInside hBlock
  next => exact whileStatement nofun hInside hBlock
  next => exact .bindAdvance nofun fun c hc t => ended
  next => exact .bindAdvance nofun fun c hc t => ended
  next => exact resultStatement nofun hInside
  next => exact checkStatement nofun hInside
  next => exact globalsStatement nofun
  next => exact hOwn.here

end

/-- The rules of one nesting do the same as watched rules of another, if both bounds are enough for
the tokens that are left. Between two tokens, rules nest at most six deep. -/
structure RulesAdvance (alarm : EStateM.Result Unit Reading (Option Stmt)) (junk : List Token)
    (n : Nat) : Prop where
  expression : ∀ n' most, 8 * most + 5 ≤ n → 8 * most + 5 ≤ n' →
    AdvancesAlike junk most 1 (Grammar.expression n) (expressionWatched alarm n')
  unary : ∀ n' most, 8 * most + 4 ≤ n → 8 * most + 4 ≤ n' →
    AdvancesAlike junk most 1 (Grammar.unary n) (unaryWatched alarm n')
  postfixes : ∀ n' most, 8 * most + 3 ≤ n → 8 * most + 3 ≤ n' →
    AdvancesAlike junk most 1 (Grammar.postfixes n) (postfixesWatched alarm n')
  primary : ∀ n' most, 8 * most + 2 ≤ n → 8 * most + 2 ≤ n' →
    AdvancesAlike junk most 1 (Grammar.primary n) (primaryWatched alarm n')
  function : ∀ n' most named, 8 * most + 1 ≤ n → 8 * most + 1 ≤ n' →
    AdvancesAt (.mark (.keyword .fnWord)) junk most 1 (Grammar.function n named)
      (functionWatched alarm n' named)
  block : ∀ n' most, 8 * most + 1 ≤ n → 8 * most + 1 ≤ n' →
    AdvancesAlike junk most 1 (Grammar.block n) (blockWatched alarm n')
  branch : ∀ n' most, 8 * most + 1 ≤ n → 8 * most + 1 ≤ n' →
    AdvancesAt (.mark (.keyword .ifWord)) junk most 1 (Grammar.branch n)
      (branchWatched alarm n')
  statement : ∀ n' most, 8 * most + 6 ≤ n → 8 * most + 6 ≤ n' →
    AdvancesAlike junk most 1 (Grammar.statement n) (statementWatched alarm n')

/-- By induction on the bound of depth: rules with more of it, or with a watch, advance alike. -/
theorem rulesAdvance (alarm : EStateM.Result Unit Reading (Option Stmt)) (junk : List Token)
    (n : Nat) : RulesAdvance alarm junk n := by
  induction n with
  | zero =>
      refine ⟨?_, ?_, ?_, ?_, ?_, ?_, ?_, ?_⟩
      · exact fun n' most h => (Nat.not_succ_le_zero _ h).elim
      · exact fun n' most h => (Nat.not_succ_le_zero _ h).elim
      · exact fun n' most h => (Nat.not_succ_le_zero _ h).elim
      · exact fun n' most h => (Nat.not_succ_le_zero _ h).elim
      · exact fun n' most named h => (Nat.not_succ_le_zero _ h).elim
      · exact fun n' most h => (Nat.not_succ_le_zero _ h).elim
      · exact fun n' most h => (Nat.not_succ_le_zero _ h).elim
      · exact fun n' most h => (Nat.not_succ_le_zero _ h).elim
  | succ n ih =>
      refine ⟨?_, ?_, ?_, ?_, ?_, ?_, ?_, ?_⟩
      · rintro (_ | n') most h h'
        · exact (Nat.not_succ_le_zero _ h').elim
        · exact nested (operators fun c hc => ih.unary n' c (by omega) (by omega))
      · rintro (_ | n') most h h'
        · exact (Nat.not_succ_le_zero _ h').elim
        · exact unaryOf (fun c hc => ih.unary n' c (by omega) (by omega))
            (ih.postfixes n' most (by omega) (by omega))
      · rintro (_ | n') most h h'
        · exact (Nat.not_succ_le_zero _ h').elim
        · exact postfixesOf (fun c hc => ih.expression n' c (by omega) (by omega))
            (ih.primary n' most (by omega) (by omega))
      · rintro (_ | n') most h h'
        · exact (Nat.not_succ_le_zero _ h').elim
        · exact primaryOf (fun c hc => ih.expression n' c (by omega) (by omega))
            (ih.function n' most false (by omega) (by omega))
      · rintro (_ | n') most named h h'
        · exact (Nat.not_succ_le_zero _ h').elim
        · exact functionOf (fun c hc => ih.block n' c (by omega) (by omega)) named
      · rintro (_ | n') most h h'
        · exact (Nat.not_succ_le_zero _ h').elim
        · exact blockOf alarm fun c hc => ih.statement n' c (by omega) (by omega)
      · rintro (_ | n') most h h'
        · exact (Nat.not_succ_le_zero _ h').elim
        · exact branchOf (fun c hc => ih.expression n' c (by omega) (by omega))
            (fun c hc => ih.block n' c (by omega) (by omega))
            (fun c hc => ih.branch n' c (by omega) (by omega))
      · rintro (_ | n') most h h'
        · exact (Nat.not_succ_le_zero _ h').elim
        · exact statementOf (fun c hc => ih.expression n' c (by omega) (by omega))
            (fun c hc => ih.postfixes n' c (by omega) (by omega))
            (ih.function n' most true (by omega) (by omega))
            (fun c hc => ih.block n' c (by omega) (by omega))
            (ih.branch n' most (by omega) (by omega))

/-- A watched script is read as any other. -/
theorem program (alarm : EStateM.Result Unit Reading (Option Stmt)) {n n' : Nat}
    (h : 8 * most + 6 ≤ n) (h' : 8 * most + 6 ≤ n') :
    AdvancesAlike junk most 0 (Grammar.program n) (programWatched alarm n') := by
  refine bindSkip (bindCurrentSpan fun start => bindRounds fun c hc m m' hm hm' => ?_)
  have hStatement := (rulesAdvance alarm junk n).statement n' c (by omega) (by omega)
  have hRounds := (RoundsAdvance.topRound hStatement).watching alarm
  rw [topLevel_eq]
  refine (hRounds.repeating (scriptDone_pad junk) scriptDone_of_isFull (by omega) (by omega)).bind
    fun stmts => ?_
  exact bindSpanFrom fun _ => pure _

end AdvancesAlike

end Metagen.Script
