import Metagen.Proofs.Script.Rules
import Metagen.Script.Grammar

/-! The grammar reads tokens where they stand: whatever its rules yield starts, in all its parts,
where tokens of the text start, and they report problems in the text only. -/

namespace Metagen.Script.ReadsOn

open Grammar

variable {a : Place} {before : Bool}

/-- The rule reads a node that stands in the text. -/
abbrev YieldsNode {Tree : Type} (a : Place) (node : Tree → Node) (rule : Rule Tree) : Prop :=
  ReadsOn a false true (fun tree => (node tree).Stands a) rule

/-- The rule reads a node from a token that is not the end mark. -/
abbrev YieldsFrom {Tree : Type} (a : Place) (node : Tree → Node) (rule : Rule Tree) : Prop :=
  ∀ t : Token, t.Ahead a → t.kind ≠ .mark .endOfInput →
    ReadsAt a t false true (fun tree => (node tree).Stands a) rule

/-- Nothing stands in a leaf but itself. -/
theorem stands_leaf {node : Node} (h : a.HasLine node.span.start) (hParts : node.parts = []) :
    node.Stands a := .of_parts h (by simp [hParts])

/-- Standing one deeper changes nothing of where a result stands. -/
theorem nested {Result : Type} {good : Result → Prop} {after : Bool} {rule : Rule Result}
    (h : ReadsOn a before after good rule) : ReadsOn a before after good (Grammar.nested rule) := by
  refine bindLook (fun r => ⟨r, rfl⟩) fun around => ite (unexpected _) ?_
  intro r hStands
  have hInside := h { r with depth := around.depth + 1 } ⟨hStands.cursor, hStands.report⟩
  dsimp only
  cases hRun : rule { r with depth := around.depth + 1 } with
  | ok result r' =>
      rw [hRun] at hInside
      exact ⟨⟨hInside.1.cursor, hInside.1.report⟩, hInside.2⟩
  | error failure r' =>
      rw [hRun] at hInside
      exact ⟨hInside.cursor, hInside.report⟩

/-- Two operands that stand in the source make up an operation that does. -/
theorem stands_joined {left right : Expr} (op : BinaryOp) (hLeft : (Node.expr left).Stands a)
    (hRight : (Node.expr right).Stands a) : (Node.expr (joined left op right)).Stands a := by
  refine .of_parts (hLeft.start.merge hRight.start) ?_
  rintro part (_ | ⟨_, _ | ⟨_, ⟨⟩⟩⟩)
  · exact hLeft
  · exact hRight

/-- The end mark is no operator. -/
theorem ne_endOfInput_of_operator {operators : Operators}
    (hEnd : operators (.mark .endOfInput) = none) {kind : TokenKind} {op : BinaryOp}
    (h : operators kind = some op) : kind ≠ .mark .endOfInput := by
  rintro rfl
  rw [hEnd] at h
  cases h

variable {operand : Rule Expr}

/-- By induction on the bound of rounds: operations joined from the left start on lines of the text,
as their operands do. -/
theorem moreOperands (hOperand : YieldsNode a .expr operand) {operators : Operators}
    (hEnd : operators (.mark .endOfInput) = none) (crossing : Bool) (fuel : Nat) {left : Expr}
    (hLeft : (Node.expr left).Stands a) :
    ReadsOn a true true (fun e => (Node.expr e).Stands a)
      (Grammar.moreOperands operators crossing operand fuel left) := by
  induction fuel generalizing left with
  | zero => exact fail
  | succ fuel ih =>
      refine bindPeek fun t _ => ?_
      cases hOperator : operators t.kind with
      | none => exact (pure hLeft).here
      | some op =>
          have hRight : ReadsOn a true true (fun e => (Node.expr e).Stands a) (do
              let right ← operand
              Grammar.moreOperands operators crossing operand fuel (joined left op right)) :=
            hOperand.weaken.bind fun right hRight => ih (stands_joined op hLeft hRight)
          refine .bindDiscard (ne_endOfInput_of_operator hEnd hOperator) ?_
          split
          · exact skipNewlines.bind fun _ _ => hRight
          · exact hRight

theorem leftJoined (hOperand : YieldsNode a .expr operand) {operators : Operators}
    (hEnd : operators (.mark .endOfInput) = none) (crossing : Bool) :
    YieldsNode a .expr (Grammar.leftJoined operators crossing operand) :=
  hOperand.bind fun _ hLeft => bindRounds fun n => moreOperands hOperand hEnd crossing n hLeft

theorem compared (hOperand : YieldsNode a .expr operand) :
    YieldsNode a .expr (Grammar.compared operand) := by
  refine hOperand.bind fun left hLeft => bindPeek fun t _ => ?_
  cases hOperator : comparison t.kind with
  | none => exact (pure hLeft).here
  | some op =>
      refine .bindDiscard (ne_endOfInput_of_operator rfl hOperator) ?_
      refine hOperand.weaken.bind fun right hRight => bindPeek fun u _ => ?_
      have hJoined : ReadsOn a true true (fun e => (Node.expr e).Stands a)
          (Pure.pure (joined left op right)) := pure (stands_joined op hLeft hRight)
      split
      · exact ((problem _ _).bind fun _ _ => hJoined).here
      · exact hJoined.here

theorem operators (hOperand : YieldsNode a .expr operand) :
    YieldsNode a .expr (Grammar.operators operand) := by
  refine leftJoined (leftJoined (compared ?_) rfl true) rfl true
  exact leftJoined (leftJoined hOperand rfl false) rfl false

theorem unaryOf {unary postfixed : Rule Expr} (hUnary : YieldsNode a .expr unary)
    (hPostfixed : YieldsNode a .expr postfixed) :
    YieldsNode a .expr (Grammar.unaryOf unary postfixed) := by
  refine bindCurrentSpan fun t hToken => .bindPeek ?_
  have hOperator : ∀ op, t.kind ≠ .mark .endOfInput →
      ReadsAt a t false true (fun e => (Node.expr e).Stands a) (do
        discard Rule.advance
        let operand ← unary
        return .unary (t.span.merge operand.span) op operand) := by
    intro op hKind
    refine .bindDiscard hKind (hUnary.weaken.bind fun operand hOperand => pure ?_)
    refine .of_parts ((hToken.stands hKind).hasLine.merge hOperand.start) ?_
    rintro part (_ | ⟨_, ⟨⟩⟩)
    exact hOperand
  split
  next hNot => exact hOperator .not (by simp [hNot])
  next hMinus => exact hOperator .neg (by simp [hMinus])
  next => exact hPostfixed.here

variable {expression : Rule Expr}

theorem argumentName : ReadsOn a true true (fun name => ∀ n ∈ name, a.HasLine n.span.start)
    Grammar.argumentName := by
  refine bindPeek fun t _ => .bindPeekNext fun next => ?_
  split
  · refine (expectName.bind fun name hName => discardAdvance.bind fun _ _ => ?_).here
    refine skipNewlines.bind fun _ _ => pure ?_
    rintro n ⟨⟩
    exact hName
  · exact (pure (by simp)).here

/-- A problem that is reported only if there is one. -/
theorem problemIf {p : Prop} [Decidable p] {code : ErrorCode} {message : String} {span : Span}
    {Result : Type} {good : Result → Prop} {after : Bool} {rest : Rule Result}
    (hSpan : a.HasPosition span.start) (h : ReadsOn a before after good rest) :
    ReadsOn a before after good (do
      if p then Rule.problemAt code message span
      rest) := by
  split
  · exact (problemAt hSpan).bind fun _ _ => h
  · exact h

theorem argument (hExpression : YieldsNode a .expr expression)
    (found : List (Option Ident × Expr)) :
    ReadsOn a true true (fun arg => (Node.expr arg.2).Stands a)
      (Grammar.argument expression found) := by
  refine argumentName.bind fun name hName => hExpression.weaken.bind fun value hValue => ?_
  cases name with
  | none => exact problemIf hValue.start.1 (pure hValue)
  | some n => exact problemIf (hName n rfl).1 (pure hValue)

/-- By induction on the bound of rounds: what fields, calls and indexes make of an expression starts
on lines of the text. -/
theorem morePostfixes (hExpression : YieldsNode a .expr expression) (fuel : Nat) {object : Expr}
    (hObject : (Node.expr object).Stands a) :
    ReadsOn a true true (fun e => (Node.expr e).Stands a)
      (Grammar.morePostfixes expression fuel object) := by
  induction fuel generalizing object with
  | zero => exact fail
  | succ fuel ih =>
      refine bindPeek fun t hToken => ?_
      split
      next hDot =>
        refine .bindDiscard (by simp [hDot]) (expectFieldName.bind fun field hField => ih ?_)
        refine .of_parts (hObject.start.merge hField) ?_
        rintro part (_ | ⟨_, ⟨⟩⟩)
        exact hObject
      next hParen =>
        refine .bindDiscard (by simp [hParen]) ?_
        refine (separatedUpTo (by simp) (argument hExpression)).bind fun args hArgs => ?_
        refine bindPreviousSpan fun span hSpan => ih (.of_parts (hObject.start.merge hSpan) ?_)
        rintro part (_ | ⟨_, hPart⟩)
        · exact hObject
        · obtain ⟨arg, hArg, rfl⟩ := List.mem_map.1 hPart
          exact hArgs arg hArg
      next hBracket =>
        refine .bindDiscard (by simp [hBracket]) (skipNewlines.bind fun _ _ => ?_)
        refine hExpression.weaken.bind fun index hIndex => skipNewlines.bind fun _ _ => ?_
        refine (expect (by simp)).bind fun _ _ => bindPreviousSpan fun span hSpan => ih ?_
        refine .of_parts (hObject.start.merge hSpan) ?_
        rintro part (_ | ⟨_, _ | ⟨_, ⟨⟩⟩⟩)
        · exact hObject
        · exact hIndex
      next => exact (pure hObject).here

theorem postfixesOf {primary : Rule Expr} (hExpression : YieldsNode a .expr expression)
    (hPrimary : YieldsNode a .expr primary) :
    YieldsNode a .expr (Grammar.postfixesOf expression primary) :=
  hPrimary.bind fun _ hObject => bindRounds fun n => morePostfixes hExpression n hObject

/-- A range from a token that was read to the token read last. -/
theorem bindSpanFrom {Result : Type} {good : Result → Prop} {after : Bool} {start : Span}
    {second : Span → Rule Result} (hStart : a.HasLine start.start)
    (h : ∀ span : Span, a.HasLine span.start → ReadsOn a true after good (second span)) :
    ReadsOn a true after good (Grammar.spanFrom start >>= second) :=
  bindPreviousSpan fun span hSpan => h (start.merge span) (hStart.merge hSpan)

/-- The holes among the parts of a string are expressions of the text. -/
def HolesStand (a : Place) (parts : List (Part Expr)) : Prop :=
  ∀ e ∈ parts.filterMap Part.hole?, (Node.expr e).Stands a

theorem HolesStand.append {parts more : List (Part Expr)} (h : HolesStand a parts)
    (hMore : HolesStand a more) : HolesStand a (parts ++ more) := by
  intro e he
  rw [List.filterMap_append, List.mem_append] at he
  exact he.elim (h e) (hMore e)

theorem holesStand_textPart (value : String) : HolesStand a (textPart value) := by
  intro e he
  unfold textPart at he
  split at he <;> cases he

theorem HolesStand.hole {e : Expr} (h : (Node.expr e).Stands a) (value : String) :
    HolesStand a (.hole e :: textPart value) := by
  rintro e (_ | ⟨_, he⟩)
  · exact h
  · exact holesStand_textPart value e he

/-- By induction on the bound of rounds: the expressions in holes start on lines of the text. -/
theorem holes (hExpression : YieldsNode a .expr expression) (fuel : Nat) {parts : List (Part Expr)}
    (hParts : HolesStand a parts) :
    ReadsOn a true true (HolesStand a) (Grammar.holes expression fuel parts) := by
  induction fuel generalizing parts with
  | zero => exact fail
  | succ fuel ih =>
      refine (expect (by simp)).bind fun _ _ => skipNewlines.bind fun _ _ => ?_
      refine hExpression.weaken.bind fun inner hInner => skipNewlines.bind fun _ _ => ?_
      refine (expect (by simp)).bind fun _ _ => bindPeek fun t _ => ?_
      split
      next value hPart =>
        exact .bindDiscard (by simp [hPart]) (ih (hParts.append (.hole hInner value)))
      next value hEnd =>
        exact .bindDiscard (by simp [hEnd]) (pure (hParts.append (.hole hInner value)))
      next => exact ((problem _ _).bind fun _ _ => fail).here

theorem interpolation (hExpression : YieldsNode a .expr expression) (first : String) {start : Span}
    (hStart : a.HasLine start.start) :
    ReadsOn a true true (fun e => (Node.expr e).Stands a)
      (Grammar.interpolation expression first start) := by
  refine bindRounds fun n => ?_
  refine (holes hExpression n (holesStand_textPart first)).bind fun parts hParts => ?_
  refine bindSpanFrom hStart fun span hSpan => pure (.of_parts hSpan fun part hPart => ?_)
  obtain ⟨e, he, rfl⟩ := List.mem_map.1 hPart
  exact hParts e he

theorem recordField (hExpression : YieldsNode a .expr expression) (found : List (Ident × Expr)) :
    ReadsOn a true true (fun field => (Node.expr field.2).Stands a)
      (Grammar.recordField expression found) := by
  refine expectFieldName.bind fun key hKey => problemIf hKey.1 ?_
  refine (expect (by simp)).bind fun _ _ => skipNewlines.bind fun _ _ => ?_
  exact hExpression.weaken.bind fun value hValue => pure hValue

/-- An expression stands in the text where the items in its brackets do. -/
theorem bracketed {Item : Type} {close : Mark} {item : List Item → Rule Item} {part : Item → Node}
    {whole : Span → List Item → Expr} {start : Span} (hStart : a.HasLine start.start)
    (hClose : close ≠ .endOfInput)
    (hItem : ∀ found, ReadsOn a true true (fun i => (part i).Stands a) (item found))
    (hSpan : ∀ span items, (whole span items).span = span)
    (hParts : ∀ span items, (whole span items).parts = items.map part) :
    ReadsOn a true true (fun e => (Node.expr e).Stands a) (do
      let items ← Rule.separatedUpTo close item
      return whole (← Grammar.spanFrom start) items) := by
  refine (separatedUpTo hClose hItem).bind fun items hItems => ?_
  refine bindSpanFrom hStart fun span hStands => pure (.of_parts ?_ fun child hChild => ?_)
  · change a.HasLine (whole span items).span.start
    rwa [hSpan]
  · change child ∈ (whole span items).parts at hChild
    rw [hParts] at hChild
    obtain ⟨i, hi, rfl⟩ := List.mem_map.1 hChild
    exact hItems i hi

theorem parenthesized (hExpression : YieldsNode a .expr expression) {start : Span}
    (hStart : a.HasLine start.start) :
    ReadsOn a true true (fun e => (Node.expr e).Stands a) (do
      Rule.skipNewlines
      let inner ← expression
      Rule.skipNewlines
      Rule.expect (.symbol .rightParen)
      return .paren (← Grammar.spanFrom start) inner) := by
  refine skipNewlines.bind fun _ _ => ?_
  refine hExpression.weaken.bind fun inner hInner => skipNewlines.bind fun _ _ => ?_
  refine (expect (by simp)).bind fun _ _ => ?_
  refine bindSpanFrom hStart fun span hSpan => pure (.of_parts hSpan ?_)
  rintro part (_ | ⟨_, ⟨⟩⟩)
  exact hInner

/-- A literal, a name, a function, or an expression in brackets starts on a line of the text, and so
do its parts. -/
theorem primaryOf {lambda : Rule Function} (hExpression : YieldsNode a .expr expression)
    (hLambda : YieldsFrom a .function lambda) :
    YieldsNode a .expr (Grammar.primaryOf expression lambda) := by
  refine bindCurrentSpan fun t hToken => .bindPeek ?_
  have hSingle : ∀ e : Expr, e.parts = [] → e.span = t.span → t.kind ≠ .mark .endOfInput →
      ReadsAt a t false true (fun e => (Node.expr e).Stands a) (do
        discard Rule.advance
        return e) := by
    intro e hParts hSpan hKind
    refine .bindDiscard hKind (pure (stands_leaf ?_ hParts))
    change a.HasLine e.span.start
    rw [hSpan]
    exact (hToken.stands hKind).hasLine
  cases hKind : t.kind with
  | int _ | float _ | text _ | name _ => exact hSingle _ rfl rfl (by simp [hKind])
  | textStart first =>
      have hText : t.kind ≠ .mark .endOfInput := by simp [hKind]
      exact .bindDiscard hText (interpolation hExpression first (hToken.stands hText).hasLine)
  | textPart _ | textEnd _ => exact (unexpected _).here
  | mark mark =>
      cases mark with
      | keyword word =>
          cases word with
          | trueWord | falseWord | nilWord => exact hSingle _ rfl rfl (by simp [hKind])
          | fnWord =>
              refine (hLambda t hToken (by simp [hKind])).bind fun f hFunction => pure ?_
              refine .of_parts hFunction.start ?_
              rintro part (_ | ⟨_, ⟨⟩⟩)
              exact hFunction
          | _ => exact (unexpected _).here
      | symbol symbol =>
          have hSymbol : t.kind ≠ .mark .endOfInput := by simp [hKind]
          have hStart := (hToken.stands hSymbol).hasLine
          cases symbol with
          | leftBracket =>
              exact .bindDiscard hSymbol (bracketed hStart (by simp)
                (fun _ => hExpression.weaken) (fun _ _ => rfl) fun _ _ => rfl)
          | leftBrace =>
              exact .bindDiscard hSymbol (bracketed hStart (by simp)
                (recordField hExpression) (fun _ _ => rfl) fun _ _ => rfl)
          | leftParen => exact .bindDiscard hSymbol (parenthesized hExpression hStart)
          | _ => exact (unexpected _).here
      | holeStart | holeEnd | newline | endOfInput => exact (unexpected _).here

theorem parameter (found : List Ident) :
    ReadsOn a true true (fun name => a.HasLine name.span.start) (Grammar.parameter found) :=
  expectName.bind fun _ hName => problemIf hName.1 (pure hName)

/-- A function starts on a line of the text, and so do all nodes of its body. -/
theorem functionOf {block : Rule Block} (hBlock : YieldsNode a .block block) (named : Bool) :
    YieldsFrom a .function (Grammar.functionOf block named) := by
  intro t hToken hKind
  refine .bindCurrentSpan (.bindDiscard hKind ?_)
  have hRest : ∀ name : Option Ident, ReadsOn a true true (fun f => (Node.function f).Stands a) (do
      Rule.expect (.symbol .leftParen)
      let params ← Rule.separatedUpTo (.symbol .rightParen) Grammar.parameter
      let body ← block
      return .mk (← Grammar.spanFrom t.span) name params body) := by
    intro name
    refine (expect (by simp)).bind fun _ _ => ?_
    refine (separatedUpTo (by simp) parameter).bind fun params _ => ?_
    refine hBlock.weaken.bind fun body hBody => ?_
    refine bindSpanFrom (hToken.stands hKind).hasLine fun span hSpan => pure (.of_parts hSpan ?_)
    rintro part (_ | ⟨_, ⟨⟩⟩)
    exact hBody
  split
  · exact (expectName.map some fun _ _ => trivial).bind fun name (_ : Whatever name) => hRest name
  · exact hRest none

/-- Statements up to one more, or none if it gave up. -/
theorem stands_toList {found : List Stmt} (hFound : ∀ s ∈ found, (Node.stmt s).Stands a)
    {stmt? : Option Stmt} (hStmt : ∀ s ∈ stmt?, (Node.stmt s).Stands a) :
    ∀ s ∈ found ++ stmt?.toList, (Node.stmt s).Stands a := by
  intro s hs
  rcases List.mem_append.1 hs with hOld | hNew
  · exact hFound s hOld
  · exact hStmt s (Option.mem_toList.1 hNew)

/-- A statement, or what is passed over after one that gave up, and the line ends behind it. -/
theorem bindStatement? {statement : Rule Stmt} (hStatement : YieldsNode a .stmt statement)
    {good : List Stmt → Prop} {second : Option Stmt → Rule (List Stmt)}
    (h : ∀ stmt? : Option Stmt, (∀ s ∈ stmt?, (Node.stmt s).Stands a) →
      ReadsOn a false false good (second stmt?)) :
    ReadsOn a false false good (do
      let stmt? ← Rule.orElseNone statement
      if stmt?.isNone then Rule.resync
      Rule.skipNewlines
      second stmt?) := by
  refine (orElseNone hStatement).bind fun stmt? hStmt => ?_
  split
  · exact resync.bind fun _ _ => skipNewlines.bind fun _ _ => h stmt? hStmt
  · exact skipNewlines.bind fun _ _ => h stmt? hStmt

/-- By induction on the bound of rounds: all statements start on lines of the text, and so do their
parts. -/
theorem statements {statement : Rule Stmt} (hStatement : YieldsNode a .stmt statement) (fuel : Nat)
    {found : List Stmt} (hFound : ∀ s ∈ found, (Node.stmt s).Stands a) :
    ReadsOn a false false (fun stmts => ∀ s ∈ stmts, (Node.stmt s).Stands a)
      (Grammar.statements statement fuel found) := by
  induction fuel generalizing found with
  | zero => exact pure hFound
  | succ fuel ih =>
      refine bindAt fun _ => bindAt fun _ => bindLook (fun _ => ⟨_, rfl⟩) fun _ => ?_
      refine ite (pure hFound) (bindStatement? hStatement fun stmt? hStmt => ?_)
      exact ih (stands_toList hFound hStmt)

theorem blockOf {statement : Rule Stmt} (hStatement : YieldsNode a .stmt statement) :
    YieldsNode a .block (Grammar.blockOf statement) := by
  refine bindCurrentSpan fun t hToken => ?_
  refine .bind (.expect (by simp)) fun _ hBrace => skipNewlines.bind fun _ _ => ?_
  have hKind : t.kind ≠ .mark .endOfInput := by simp [hBrace]
  refine bindRounds fun n => ?_
  refine (statements hStatement n (by simp)).weaken.bind fun stmts hStmts => ?_
  refine (expect (by simp)).bind fun _ _ => ?_
  refine bindSpanFrom (hToken.stands hKind).hasLine fun span hSpan =>
    pure (.of_parts hSpan fun part hPart => ?_)
  obtain ⟨s, hs, rfl⟩ := List.mem_map.1 hPart
  exact hStmts s hs

/-- A branch starts on a line of the text, and so do its condition, its blocks and the branches
behind them. -/
theorem branchOf {block : Rule Block} {branch : Rule Branch}
    (hExpression : YieldsNode a .expr expression) (hBlock : YieldsNode a .block block)
    (hBranch : YieldsFrom a .branch branch) :
    YieldsFrom a .branch (Grammar.branchOf expression block branch) := by
  intro t hToken hKind
  refine .bindCurrentSpan (.bindDiscard hKind ?_)
  refine hExpression.weaken.bind fun condition hCondition => ?_
  refine hBlock.weaken.bind fun body hBody => ?_
  have hRest : ∀ otherwise : Otherwise, (∀ part ∈ otherwise.parts, part.Stands a) →
      ReadsOn a true true (fun b => (Node.branch b).Stands a) (do
        return .mk (← Grammar.spanFrom t.span) condition body otherwise) := by
    intro otherwise hOtherwise
    refine bindSpanFrom (hToken.stands hKind).hasLine fun span hSpan => pure (.of_parts hSpan ?_)
    rintro part (_ | ⟨_, _ | ⟨_, hPart⟩⟩)
    · exact hCondition
    · exact hBody
    · exact hOtherwise part hPart
  refine bindLook (fun r => ⟨r, rfl⟩) fun r => ?_
  split
  · refine skipNewlines.bind fun _ _ => discardAdvance.bind fun _ _ => ?_
    let good (otherwise : Otherwise) : Prop := ∀ part ∈ otherwise.parts, part.Stands a
    refine bindAtMark (fun u hu hIf => ?_) ?_
    · have hNext : ReadsAt a u true true good (Otherwise.branch <$> branch) := by
        refine (hBranch u hu (by simp [hIf])).weaken.map Otherwise.branch ?_
        rintro next hNext part (_ | ⟨_, ⟨⟩⟩)
        exact hNext
      exact hNext.bind hRest
    · have hNext : ReadsOn a true true good (Otherwise.block <$> block) := by
        refine hBlock.weaken.map Otherwise.block ?_
        rintro next hNext part (_ | ⟨_, ⟨⟩⟩)
        exact hNext
      exact hNext.bind hRest
  · exact hRest .nothing (by simp [Otherwise.parts])

/-- A statement whose range starts at a token of the text. -/
theorem ended {start : Span} {stmt : Span → Stmt} (hStart : a.HasLine start.start)
    (h : ∀ span : Span, a.HasLine span.start → (Node.stmt (stmt span)).Stands a) :
    ReadsOn a true true (fun s => (Node.stmt s).Stands a) (Grammar.ended start stmt) :=
  bindSpanFrom hStart fun span hSpan => expectStatementEnd.bind fun _ _ => pure (h span hSpan)

variable {block : Rule Block} {place : Rule Expr}

theorem bindStatement (hExpression : YieldsNode a .expr expression) :
    YieldsFrom a .stmt (Grammar.bindStatement expression) := by
  intro t hToken hKind
  refine .bindAdvance hKind (expectName.bind fun name _ => (expect (by simp)).bind fun _ _ => ?_)
  refine hExpression.weaken.bind fun value hValue => ?_
  refine ended (hToken.stands hKind).hasLine fun span hSpan => .of_parts hSpan ?_
  rintro part (_ | ⟨_, ⟨⟩⟩)
  exact hValue

theorem assignStatement (hExpression : YieldsNode a .expr expression)
    (hPlace : YieldsNode a .expr place) :
    YieldsFrom a .stmt (Grammar.assignStatement expression place) := by
  intro t hToken hKind
  refine .bindAdvance hKind (hPlace.weaken.bind fun target hTarget => ?_)
  have hRest : ReadsOn a true true (fun s => (Node.stmt s).Stands a) (do
      Rule.expect (.symbol .assign)
      let value ← expression
      Grammar.ended t.span fun span => .assign span target value) := by
    refine (expect (by simp)).bind fun _ _ => hExpression.weaken.bind fun value hValue => ?_
    refine ended (hToken.stands hKind).hasLine fun span hSpan => .of_parts hSpan ?_
    rintro part (_ | ⟨_, _ | ⟨_, ⟨⟩⟩⟩)
    · exact hTarget
    · exact hValue
  split
  · exact hRest
  · exact (problemAt hTarget.start.1).bind fun _ _ => fail

theorem forStatement (hExpression : YieldsNode a .expr expression)
    (hBlock : YieldsNode a .block block) :
    YieldsFrom a .stmt (Grammar.forStatement expression block) := by
  intro t hToken hKind
  refine .bindAdvance hKind (expectName.bind fun item _ => ?_)
  have hRest : ∀ index : Option Ident, ReadsOn a true true (fun s => (Node.stmt s).Stands a) (do
      Rule.expect (.keyword .inWord)
      let iterable ← expression
      let body ← block
      Grammar.ended t.span fun span => .forEach span item index iterable body) := by
    intro index
    refine (expect (by simp)).bind fun _ _ => hExpression.weaken.bind fun iterable hIterable => ?_
    refine hBlock.weaken.bind fun body hBody => ?_
    refine ended (hToken.stands hKind).hasLine fun span hSpan => .of_parts hSpan ?_
    rintro part (_ | ⟨_, _ | ⟨_, ⟨⟩⟩⟩)
    · exact hIterable
    · exact hBody
  refine eat (by simp) ?_ (hRest none)
  exact (expectName.map some fun _ _ => trivial).bind fun name (_ : Whatever name) => hRest name

theorem whileStatement (hExpression : YieldsNode a .expr expression)
    (hBlock : YieldsNode a .block block) :
    YieldsFrom a .stmt (Grammar.whileStatement expression block) := by
  intro t hToken hKind
  refine .bindAdvance hKind (hExpression.weaken.bind fun condition hCondition => ?_)
  refine hBlock.weaken.bind fun body hBody => ?_
  refine ended (hToken.stands hKind).hasLine fun span hSpan => .of_parts hSpan ?_
  rintro part (_ | ⟨_, _ | ⟨_, ⟨⟩⟩⟩)
  · exact hCondition
  · exact hBody

/-- Expressions that may be missing. -/
def OptionStands (a : Place) (e? : Option Expr) : Prop := ∀ e ∈ e?, (Node.expr e).Stands a

theorem some_expression (hExpression : YieldsNode a .expr expression) :
    ReadsOn a true true (OptionStands a) (some <$> expression) := by
  refine hExpression.weaken.map some ?_
  rintro e he _ ⟨⟩
  exact he

theorem OptionStands.parts {e? : Option Expr} (h : OptionStands a e?) :
    ∀ part ∈ e?.toList.map Node.expr, part.Stands a := by
  intro part hPart
  obtain ⟨e, he, rfl⟩ := List.mem_map.1 hPart
  exact h e (Option.mem_toList.1 he)

theorem resultStatement (hExpression : YieldsNode a .expr expression) :
    YieldsFrom a .stmt (Grammar.resultStatement expression) := by
  intro t hToken hKind
  refine .bindAdvance hKind ?_
  have hRest : ∀ value, OptionStands a value →
      ReadsOn a true true (fun s => (Node.stmt s).Stands a)
        (Grammar.ended t.span fun span => .result span value) := fun value hValue =>
    ended (hToken.stands hKind).hasLine fun span hSpan => .of_parts hSpan hValue.parts
  refine bindPeek fun u _ => ?_
  split
  · exact (hRest none (by simp [OptionStands])).here
  · exact (hRest none (by simp [OptionStands])).here
  · exact (hRest none (by simp [OptionStands])).here
  · exact ((some_expression hExpression).bind hRest).here

theorem checkStatement (hExpression : YieldsNode a .expr expression) :
    YieldsFrom a .stmt (Grammar.checkStatement expression) := by
  intro t hToken hKind
  refine .bindAdvance hKind (hExpression.weaken.bind fun condition hCondition => ?_)
  have hRest : ∀ message, OptionStands a message →
      ReadsOn a true true (fun s => (Node.stmt s).Stands a)
        (Grammar.ended t.span fun span => .check span condition message) := by
    intro message hMessage
    refine ended (hToken.stands hKind).hasLine fun span hSpan => .of_parts hSpan ?_
    rintro part (_ | ⟨_, hPart⟩)
    · exact hCondition
    · exact hMessage.parts part hPart
  exact eat (by simp) ((some_expression hExpression).bind hRest)
    (hRest none (by simp [OptionStands]))

theorem moreNames (fuel : Nat) (found : List Ident) :
    ReadsOn a true true Whatever (Grammar.moreNames fuel found) := by
  induction fuel generalizing found with
  | zero => exact fail
  | succ fuel ih => exact eat (by simp) (expectName.bind fun _ _ => ih _) (pure trivial)

theorem globalsStatement : YieldsFrom a .stmt Grammar.globalsStatement := by
  intro t hToken hKind
  refine .bindAdvance hKind (expectName.bind fun first _ => bindRounds fun n => ?_)
  refine (moreNames n [first]).bind fun names _ => ?_
  exact ended (hToken.stands hKind).hasLine fun span hSpan => stands_leaf hSpan rfl

theorem expressionStatement (hExpression : YieldsNode a .expr expression) :
    YieldsNode a .stmt (Grammar.expressionStatement expression) := by
  refine hExpression.bind fun value hValue => bindAt fun assigned => ?_
  have hRest : ReadsOn a true true (fun s => (Node.stmt s).Stands a) (do
      Rule.expectStatementEnd
      return .expr value) := by
    refine expectStatementEnd.bind fun _ _ => pure (.of_parts hValue.start ?_)
    rintro part (_ | ⟨_, ⟨⟩⟩)
    exact hValue
  have hRefuse : ∀ message, ReadsOn a true true Whatever (Rule.unexpected message : Rule Unit) :=
    unexpected
  split
  · exact (hRefuse _).bind fun _ _ => hRest
  · exact hRest

/-- Every statement starts on a line of the text, and so do its parts. -/
theorem statementOf {declaration : Rule Function} {branch : Rule Branch}
    (hExpression : YieldsNode a .expr expression) (hPlace : YieldsNode a .expr place)
    (hDeclaration : YieldsFrom a .function declaration) (hBlock : YieldsNode a .block block)
    (hBranch : YieldsFrom a .branch branch) :
    YieldsNode a .stmt (Grammar.statementOf expression place declaration block branch) := by
  refine bindPeek fun t hToken => ?_
  split
  next hWord => exact bindStatement hExpression t hToken (by simp [hWord])
  next hWord => exact assignStatement hExpression hPlace t hToken (by simp [hWord])
  next hWord =>
    refine .bindPeekNext fun next => ?_
    split
    · refine (hDeclaration t hToken (by simp [hWord])).bind fun f hFunction => ?_
      refine expectStatementEnd.bind fun _ _ => pure (.of_parts hFunction.start ?_)
      rintro part (_ | ⟨_, ⟨⟩⟩)
      exact hFunction
    · exact (expressionStatement hExpression).here
  next hWord =>
    refine (hBranch t hToken (by simp [hWord])).bind fun b hFirst => ?_
    refine expectStatementEnd.bind fun _ _ => pure (.of_parts hFirst.start ?_)
    rintro part (_ | ⟨_, ⟨⟩⟩)
    exact hFirst
  next hWord => exact forStatement hExpression hBlock t hToken (by simp [hWord])
  next hWord => exact whileStatement hExpression hBlock t hToken (by simp [hWord])
  next hWord =>
    have hKind : t.kind ≠ .mark .endOfInput := by simp [hWord]
    exact .bindAdvance hKind (ended (hToken.stands hKind).hasLine fun span hSpan =>
      stands_leaf hSpan rfl)
  next hWord =>
    have hKind : t.kind ≠ .mark .endOfInput := by simp [hWord]
    exact .bindAdvance hKind (ended (hToken.stands hKind).hasLine fun span hSpan =>
      stands_leaf hSpan rfl)
  next hWord => exact resultStatement hExpression t hToken (by simp [hWord])
  next hWord => exact checkStatement hExpression t hToken (by simp [hWord])
  next hWord => exact globalsStatement t hToken (by simp [hWord])
  next => exact (expressionStatement hExpression).here

/-- All rules of one nesting yield nodes of the text. -/
structure RulesYield (a : Place) (fuel : Nat) : Prop where
  expression : YieldsNode a .expr (Grammar.expression fuel)
  unary : YieldsNode a .expr (Grammar.unary fuel)
  postfixes : YieldsNode a .expr (Grammar.postfixes fuel)
  primary : YieldsNode a .expr (Grammar.primary fuel)
  function : ∀ named, YieldsFrom a .function (Grammar.function fuel named)
  block : YieldsNode a .block (Grammar.block fuel)
  branch : YieldsFrom a .branch (Grammar.branch fuel)
  statement : YieldsNode a .stmt (Grammar.statement fuel)

/-- By induction on the bound of depth: whatever nodes the rules give start on lines of the text. -/
theorem rulesYield (a : Place) (fuel : Nat) : RulesYield a fuel := by
  induction fuel with
  | zero =>
      exact ⟨fail, fail, fail, fail, fun _ _ _ _ => fail.here, fail, fun _ _ _ => fail.here, fail⟩
  | succ fuel ih =>
      refine ⟨?_, ?_, ?_, ?_, ?_, ?_, ?_, ?_⟩
      · exact nested (operators ih.unary)
      · exact unaryOf ih.unary ih.postfixes
      · exact postfixesOf ih.expression ih.primary
      · exact primaryOf ih.expression (ih.function false)
      · exact functionOf ih.block
      · exact blockOf ih.statement
      · exact branchOf ih.expression ih.block ih.branch
      · exact statementOf ih.expression ih.postfixes (ih.function true) ih.block ih.branch

/-- The statements read at the top level come behind those that were there. -/
theorem topLevel {statement : Rule Stmt} (hStatement : YieldsNode a .stmt statement) (fuel : Nat)
    (found : List Stmt) :
    ReadsOn a false false (fun stmts => ∃ more, stmts = found ++ more ∧
      ∀ s ∈ more, (Node.stmt s).Stands a) (Grammar.topLevel statement fuel found) := by
  induction fuel generalizing found with
  | zero => exact pure ⟨[], (List.append_nil _).symm, by simp⟩
  | succ fuel ih =>
      refine bindAt fun _ => bindLook (fun _ => ⟨_, rfl⟩) fun _ => ?_
      refine ite (pure ⟨[], (List.append_nil _).symm, by simp⟩) (bindAt fun unmatched => ?_)
      refine ite ?_ (bindStatement? hStatement fun stmt? hStmt => ?_)
      · refine (problem _ _).bind fun _ _ => discardAdvance.bind fun _ _ => ?_
        exact skipNewlines.bind fun _ _ => ih found
      · refine (ih (found ++ stmt?.toList)).imp ?_
        rintro _ ⟨more, rfl, hMore⟩
        refine ⟨stmt?.toList ++ more, List.append_assoc _ _ _, fun s hs => ?_⟩
        rcases List.mem_append.1 hs with hNew | hLater
        · exact hStmt s (Option.mem_toList.1 hNew)
        · exact hMore s hLater

end Metagen.Script.ReadsOn

namespace Metagen.Script.Finishes

/-- The top level never gives up: a statement that cannot be read is reported and passed over. -/
theorem topLevel (statement : Rule Stmt) (fuel : Nat) (found : List Stmt) :
    Finishes (Grammar.topLevel statement fuel found) := by
  induction fuel generalizing found with
  | zero => exact fun r => ⟨found, r, rfl⟩
  | succ fuel ih =>
      have hLook : ∀ {Result : Type} (look : Reading → Result),
          Finishes (fun r => .ok (look r) r) := fun look r => ⟨look r, r, rfl⟩
      have hChange : ∀ change : Reading → Reading,
          Finishes (modify change : Rule Unit) := fun change r => ⟨(), change r, rfl⟩
      refine bind (hLook _) fun _ => bind (hLook _) fun _ => ?_
      split
      · exact fun r => ⟨found, r, rfl⟩
      · refine bind (hLook _) fun _ => ?_
        split
        · refine bind (fun r => ⟨(), _, rfl⟩) fun _ => bind (fun r => ⟨(), _, rfl⟩) fun _ => ?_
          exact bind (hChange _) fun _ => ih found
        · refine bind (.orElseNone _) fun stmt? => ?_
          split
          · exact bind (hChange _) fun _ => bind (hChange _) fun _ => ih _
          · exact bind (hChange _) fun _ => ih _

/-- Reading a whole script always comes to an end. -/
theorem program (fuel : Nat) : Finishes (Grammar.program fuel) := by
  refine bind (fun r => ⟨(), _, rfl⟩) fun _ => bind (fun r => ⟨_, r, rfl⟩) fun start => ?_
  refine bind (fun r => ⟨_, r, rfl⟩) fun n => bind (topLevel _ _ _) fun stmts => ?_
  exact bind (fun r => ⟨_, r, rfl⟩) fun span r => ⟨_, r, rfl⟩

end Metagen.Script.Finishes
