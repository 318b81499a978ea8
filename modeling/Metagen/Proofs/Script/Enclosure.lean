import Metagen.Proofs.Script.Forward
import Metagen.Proofs.Script.Reading

/-! Every node that the grammar yields covers the names and nodes inside it, and those directly
inside it stand in the order they are written in. -/

namespace Metagen.Script

namespace Leads

open Grammar

variable {c d : Cursor} {p : Position}

/-- The rule yields what reaches from the token it starts at to the token it reads last. -/
abbrev SpansTree {Tree : Type} (child : Tree → Child) (rule : Rule Tree) : Prop :=
  ∀ c, Leads c (fun tree d => Stretch c.front (child tree) d) rule

/-- So does the rule, from a token that ends before the next one starts. -/
abbrev SpansFrom {Tree : Type} (child : Tree → Child) (rule : Rule Tree) : Prop :=
  ∀ c, c.current.kind.IsSolid → Leads c (fun tree d => Stretch c.front (child tree) d) rule

theorem bindSpanFrom {Result : Type} {good : Result → Cursor → Prop} {second : Span → Rule Result}
    {first : Span} (h : Leads c good (second (first.merge c.passed))) :
    Leads c good (Grammar.spanFrom first >>= second) :=
  bindLook (· = first.merge c.passed) (fun _ hCursor => ⟨_, rfl, by rw [← hCursor]; rfl⟩)
    fun _ hSeen => hSeen ▸ h

/-- Standing one deeper changes nothing of where a result stands. -/
theorem nested {Result : Type} {good : Result → Cursor → Prop} {rule : Rule Result}
    (h : Leads c good rule) : Leads c good (Grammar.nested rule) := by
  refine bindAny (fun r => ⟨r, rfl⟩) fun around => ite (unexpected _) ?_
  intro hInOrder r hCursor
  have hInside := h hInOrder { r with depth := around.depth + 1 } hCursor
  dsimp only
  cases hRun : rule { r with depth := around.depth + 1 } with
  | ok result r' =>
      rw [hRun] at hInside
      exact hInside
  | error failure r' =>
      rw [hRun] at hInside
      exact hInside

variable {operand : Rule Expr}

/-- By induction on the bound of rounds: operands joined from the left cover what was read of
them. -/
theorem moreOperands (hOperand : SpansTree .expr operand) {operators : Operators}
    (hEnd : operators (.mark .endOfInput) = none) (crossing : Bool) (fuel : Nat) {left : Expr}
    (hLeft : Stretch p (.expr left) c) :
    Leads c (fun e d => Stretch p (.expr e) d)
      (Grammar.moreOperands operators crossing operand fuel left) := by
  induction fuel generalizing left c with
  | zero => exact fail
  | succ fuel ih =>
      refine bindPeek ?_
      cases hOperator : operators c.current.kind with
      | none => exact pure hLeft
      | some op =>
          refine bindDiscard (ReadsOn.ne_endOfInput_of_operator hEnd hOperator) fun d hStep => ?_
          have hRight : ∀ e, d.LeadsTo e → Leads e (fun e d => Stretch p (.expr e) d) (do
              let right ← operand
              Grammar.moreOperands operators crossing operand fuel (joined left op right)) :=
            fun e hLater => (hOperand e).bind fun right f hNext hRight =>
              ih (hLeft.pair (hStep.leads.trans hLater) hRight hNext rfl rfl)
          split
          · exact skipNewlines.bind fun _ e hLines _ => hRight e hLines
          · exact hRight d hStep.leads.inOrder.refl

theorem leftJoined (hOperand : SpansTree .expr operand) {operators : Operators}
    (hEnd : operators (.mark .endOfInput) = none) (crossing : Bool) :
    SpansTree .expr (Grammar.leftJoined operators crossing operand) := fun c =>
  (hOperand c).bind fun _ _ _ hLeft =>
    bindRounds fun n => moreOperands hOperand hEnd crossing n hLeft

/-- A comparison covers its operands. -/
theorem compared (hOperand : SpansTree .expr operand) :
    SpansTree .expr (Grammar.compared operand) := by
  refine fun c => (hOperand c).bind fun left d _ hLeft => bindPeek ?_
  cases hOperator : comparison d.current.kind with
  | none => exact pure hLeft
  | some op =>
      refine bindDiscard (ReadsOn.ne_endOfInput_of_operator rfl hOperator) fun e hStep => ?_
      refine (hOperand e).bind fun right f hNext hRight => bindPeek ?_
      have hJoined := hLeft.pair hStep.leads hRight hNext
        (rfl : (Node.expr (joined left op right)).children = _) rfl
      split
      · refine (problem _ _).bind ?_
        rintro _ _ _ rfl
        exact pure hJoined
      · exact pure hJoined

theorem operators (hOperand : SpansTree .expr operand) :
    SpansTree .expr (Grammar.operators operand) := by
  refine leftJoined (leftJoined (compared ?_) rfl true) rfl true
  exact leftJoined (leftJoined hOperand rfl false) rfl false

/-- An operator in front starts the range that its operand ends. -/
theorem unaryOf {unary postfixed : Rule Expr} (hUnary : SpansTree .expr unary)
    (hPostfixed : SpansTree .expr postfixed) :
    SpansTree .expr (Grammar.unaryOf unary postfixed) := by
  refine fun c => bindCurrentSpan (bindPeek ?_)
  have hOperator : ∀ op, c.current.kind.IsSolid →
      Leads c (fun e d => Stretch c.front (.expr e) d) (do
        discard Rule.advance
        let operand ← unary
        return .unary (c.current.span.merge operand.span) op operand) := by
    intro op hSolid
    refine bindDiscard hSolid.ne_endOfInput fun d hStep => ?_
    refine (hUnary d).bind fun operand e hNext hOperand => pure ?_
    have hReached : c.current.span.stop ≤ e.reached := (hStep.since.later hNext).stop
    have hMerge : c.current.span.merge operand.span = ⟨c.front, e.reached⟩ := by
      rw [show operand.span = _ from hOperand.span]
      exact Span.merge_eq hStep.leads.front hReached
    exact .whole (hOperand.laid.since hStep.leads.front) hMerge
      (hStep.leads.front.trans hOperand.le) hOperand.firm
  split
  next hNot => exact hOperator .not (hNot ▸ trivial)
  next hMinus => exact hOperator .neg (hMinus ▸ trivial)
  next => exact hPostfixed c

variable {expression : Rule Expr}

/-- The name of an argument, if there is one, is read from where its token starts. -/
theorem argumentName :
    Leads c (fun name d => Laid c.front (nameChildren name) d) Grammar.argumentName := by
  refine bindPeek (bindPeekNext fun next => ?_)
  split
  · refine expectName.bind fun name d _ hName => discardAdvance.bind fun _ e hNext _ => ?_
    exact skipNewlines.bind fun _ f hLines _ => pure (hName.laid.later (hNext.trans hLines))
  · exact pure (.nil (le_refl _))

/-- The name of an argument and its value stand one behind the other. -/
theorem argument (hExpression : SpansTree .expr expression) (found : List (Option Ident × Expr))
    (c : Cursor) : Leads c (fun arg d => Laid c.front (argumentChildren arg) d)
      (Grammar.argument expression found) := by
  refine argumentName.bind fun name d _ hName => ?_
  refine (hExpression d).bind fun value e hNext hValue => ?_
  have hLaid := hName.append hValue.laid hNext
  cases name with
  | none => exact problemIf (pure hLaid)
  | some n => exact problemIf (pure hLaid)

/-- An expression that line ends may stand around. -/
theorem bindBetweenLines (hExpression : SpansTree .expr expression) {Result : Type}
    {good : Result → Cursor → Prop} {second : Expr → Rule Result}
    (h : ∀ e d, c.LeadsTo d → Laid c.front [.expr e] d → Leads d good (second e)) :
    Leads c good (do
      Rule.skipNewlines
      let e ← expression
      Rule.skipNewlines
      second e) := by
  refine skipNewlines.bind fun _ d hLines _ => (hExpression d).bind fun e f hNext hInner => ?_
  refine skipNewlines.bind fun _ g hLines' _ => h e g (hLines.trans (hNext.trans hLines')) ?_
  exact (hInner.laid.later hLines').since hLines.front

/-- By induction on the bound of rounds: what follows an expression makes its range longer. -/
theorem morePostfixes (hExpression : SpansTree .expr expression) (fuel : Nat) {object : Expr}
    (hObject : Stretch p (.expr object) c) :
    Leads c (fun e d => Stretch p (.expr e) d) (Grammar.morePostfixes expression fuel object) := by
  induction fuel generalizing object c with
  | zero => exact fail
  | succ fuel ih =>
      have hStart : object.span.start = p := congrArg Span.start hObject.span
      refine bindPeek ?_
      split
      next hDot =>
        refine bindDiscard (by simp [hDot]) fun d hStep => ?_
        refine expectFieldName.bind fun field e hNext hField => ih ?_
        exact hObject.pair hStep.leads hField hNext rfl rfl
      next hParen =>
        refine bindDiscard (by simp [hParen]) fun d hStep => ?_
        refine (separatedUpTo (by trivial) (argument hExpression)).bind fun args e hNext hArgs => ?_
        have hLaid := (hObject.laid.later hStep.leads).append hArgs.1 hNext
        have hSince := (hObject.since hStep).later hNext
        exact bindPreviousSpan (ih (.around hNext.inOrder hSince hStart hLaid rfl hArgs.2))
      next hBracket =>
        refine bindDiscard (by simp [hBracket]) fun d hStep => ?_
        refine bindBetweenLines hExpression fun index e hNext hIndex => ?_
        refine (expect (by trivial)).bind fun _ f hMark hGood => ?_
        have hLaid := ((hObject.laid.later hStep.leads).append hIndex hNext).later hMark
        have hSince := (hObject.since hStep).later (hNext.trans hMark)
        exact bindPreviousSpan (ih (.around hMark.inOrder hSince hStart hLaid rfl hGood.2))
      next => exact pure hObject

theorem postfixesOf {primary : Rule Expr} (hExpression : SpansTree .expr expression)
    (hPrimary : SpansTree .expr primary) :
    SpansTree .expr (Grammar.postfixesOf expression primary) :=
  fun c => (hPrimary c).bind fun _ _ _ hObject =>
    bindRounds fun n => morePostfixes hExpression n hObject

theorem holeChildren_textPart (value : String) : holeChildren (textPart value) = [] := by
  unfold textPart
  split <;> rfl

theorem holeChildren_append (before : List (Part Expr)) (inner : Expr) (value : String) :
    holeChildren (before ++ .hole inner :: textPart value) =
      holeChildren before ++ [.expr inner] := by
  have hText := congrArg (Child.expr inner :: ·) (holeChildren_textPart value)
  simpa [holeChildren, Part.hole?] using hText

/-- By induction on the bound of rounds: the holes of a string stand one behind the other. -/
theorem holes (hExpression : SpansTree .expr expression) (fuel : Nat) {parts : List (Part Expr)}
    (hParts : Laid p (holeChildren parts) c) :
    Leads c (fun parts d => Laid p (holeChildren parts) d ∧ d.Firm)
      (Grammar.holes expression fuel parts) := by
  induction fuel generalizing parts c with
  | zero => exact fail
  | succ fuel ih =>
      refine (expect (by trivial)).bind fun _ d hOpen _ => ?_
      refine bindBetweenLines hExpression fun inner e hNext hInner => ?_
      refine (expect (by trivial)).bind fun _ f hClose _ => bindPeek ?_
      have hLaid := ((hParts.later hOpen).append hInner hNext).later hClose
      split
      next value hPart =>
        refine bindDiscard (by simp [hPart]) fun g hStep => ih ?_
        rw [holeChildren_append]
        exact hLaid.later hStep.leads
      next value hEnd =>
        refine bindDiscard (by simp [hEnd]) fun g hStep => pure ⟨?_, hStep.firm (hEnd ▸ trivial)⟩
        rw [holeChildren_append]
        exact hLaid.later hStep.leads
      next => exact (problem _ _).bind fun _ _ _ _ => fail

/-- An interpolated string starts with its first text and covers its holes. -/
theorem interpolation (hExpression : SpansTree .expr expression) (first : String)
    (hStep : c.StepsTo d) : Leads d (fun e f => Stretch c.front (.expr e) f)
      (Grammar.interpolation expression first c.current.span) := by
  have hLaid : Laid d.front (holeChildren (textPart first)) d := by
    rw [holeChildren_textPart]
    exact .nil (le_refl _)
  refine bindRounds fun n => (holes hExpression n hLaid).bind fun parts e hLater hGood => ?_
  exact bindSpanFrom (pure (.enclosed hStep hLater hGood.1 hGood.2 rfl))

/-- A field of a record covers its key and behind it its value. -/
theorem recordField (hExpression : SpansTree .expr expression) (found : List (Ident × Expr))
    (c : Cursor) : Leads c (fun field d => Laid c.front (fieldChildren field) d)
      (Grammar.recordField expression found) := by
  refine expectFieldName.bind fun key d _ hKey => problemIf ?_
  refine (expect (by trivial)).bind fun _ e hColon _ => skipNewlines.bind fun _ f hLines _ => ?_
  refine (hExpression f).bind fun value g hNext hValue => pure ?_
  exact (hKey.laid.later (hColon.trans hLines)).append hValue.laid hNext

/-- Items between brackets. -/
theorem bracketed {Item : Type} {close : Mark} {item : List Item → Rule Item}
    {part : Item → List Child} {whole : Span → List Item → Expr} (hStep : c.StepsTo d)
    (hClose : (TokenKind.mark close).IsSolid)
    (hItem : ∀ before c, Leads c (fun i d => Laid c.front (part i) d) (item before))
    (hSpan : ∀ span items, (whole span items).span = span)
    (hChildren : ∀ span items, (whole span items).children = items.flatMap part) :
    Leads d (fun e f => Stretch c.front (.expr e) f) (do
      let items ← Rule.separatedUpTo close item
      return whole (← Grammar.spanFrom c.current.span) items) := by
  refine (separatedUpTo hClose hItem).bind fun items e hLater hGood => bindSpanFrom (pure ?_)
  refine .enclosed hStep hLater ?_ hGood.2 (hSpan _ _)
  rw [show (Node.expr (whole _ items)).children = _ from hChildren _ _]
  exact hGood.1

/-- Parentheses cover what stands between them. -/
theorem parenthesized (hExpression : SpansTree .expr expression) (hStep : c.StepsTo d) :
    Leads d (fun e f => Stretch c.front (.expr e) f) (do
      Rule.skipNewlines
      let inner ← expression
      Rule.skipNewlines
      Rule.expect (.symbol .rightParen)
      return .paren (← Grammar.spanFrom c.current.span) inner) := by
  refine bindBetweenLines hExpression fun inner e hNext hInner => ?_
  refine (expect (by trivial)).bind fun _ f hMark hGood => bindSpanFrom (pure ?_)
  exact .enclosed hStep (hNext.trans hMark) (hInner.later hMark) hGood.2 rfl

/-- A literal, a name, a function, or an expression in brackets covers its parts. -/
theorem primaryOf {lambda : Rule Function} (hExpression : SpansTree .expr expression)
    (hLambda : SpansFrom (fun f => .node (.function f)) lambda) :
    SpansTree .expr (Grammar.primaryOf expression lambda) := by
  refine fun c => bindCurrentSpan (bindPeek ?_)
  have hSingle : ∀ e : Expr, e.children = [] → e.span = c.current.span → c.current.kind.IsSolid →
      Leads c (fun e d => Stretch c.front (.expr e) d) (do
        discard Rule.advance
        return e) := fun e hChildren hSpan hSolid =>
    bindDiscard hSolid.ne_endOfInput fun d hStep =>
      pure (.token hStep hSolid hSpan (nests_leaf hChildren))
  cases hKind : c.current.kind with
  | int _ | float _ | text _ | name _ => exact hSingle _ rfl rfl (hKind ▸ trivial)
  | textStart first =>
      exact bindDiscard (by simp [hKind]) fun d hStep => interpolation hExpression first hStep
  | textPart _ | textEnd _ => exact unexpected _
  | mark mark =>
      cases mark with
      | keyword word =>
          cases word with
          | trueWord | falseWord | nilWord => exact hSingle _ rfl rfl (hKind ▸ trivial)
          | fnWord =>
              exact (hLambda c (hKind ▸ trivial)).bind fun f d _ hFunction =>
                pure (hFunction.only rfl rfl)
          | _ => exact unexpected _
      | symbol symbol =>
          cases symbol with
          | leftBracket =>
              have hItem : ∀ (_ : List Expr) c,
                  Leads c (fun e d => Laid c.front [.expr e] d) expression :=
                fun _ c => (hExpression c).imp fun _ _ hStretch => hStretch.laid
              exact bindDiscard (by simp [hKind]) fun d hStep =>
                bracketed hStep trivial hItem (fun _ _ => rfl) fun _ _ => List.map_eq_flatMap
          | leftBrace =>
              exact bindDiscard (by simp [hKind]) fun d hStep =>
                bracketed hStep trivial (recordField hExpression) (fun _ _ => rfl) fun _ _ => rfl
          | leftParen =>
              exact bindDiscard (by simp [hKind]) fun d hStep => parenthesized hExpression hStep
          | _ => exact unexpected _
      | holeStart | holeEnd | newline | endOfInput => exact unexpected _

theorem parameter (found : List Ident) (c : Cursor) :
    Leads c (fun name d => Laid c.front [.name name] d) (Grammar.parameter found) :=
  expectName.bind fun _ _ _ hName => problemIf (pure hName.laid)

/-- A name that may be missing. -/
theorem someName : Leads c (fun name? d => Laid c.front (nameChildren name?) d)
    (some <$> Rule.expectName) := expectName.map _ fun _ _ _ hName => hName.laid

/-- A function covers its name, its parameters and its block. -/
theorem functionOf {block : Rule Block} (hBlock : SpansTree .block block) (named : Bool) :
    SpansFrom (fun f => .node (.function f)) (Grammar.functionOf block named) := by
  refine fun c hSolid => bindCurrentSpan (bindDiscard hSolid.ne_endOfInput fun d hStep => ?_)
  have hRest : ∀ (name : Option Ident) e, d.LeadsTo e → Laid d.front (nameChildren name) e →
      Leads e (fun f d => Stretch c.front (.node (.function f)) d) (do
        Rule.expect (.symbol .leftParen)
        let params ← Rule.separatedUpTo (.symbol .rightParen) Grammar.parameter
        let body ← block
        return .mk (← Grammar.spanFrom c.current.span) name params body) := by
    intro name e hLater hName
    refine (expect (by trivial)).bind fun _ f hOpen _ => ?_
    refine (separatedUpTo (by trivial) parameter).bind fun params g hParams hGood => ?_
    refine (hBlock g).bind fun body i hNext hBody => bindSpanFrom (pure ?_)
    have hList := (hName.later hOpen).append hGood.1 hParams
    rw [← List.map_eq_flatMap] at hList
    exact .enclosed hStep (hLater.trans (hOpen.trans (hParams.trans hNext)))
      (hList.append hBody.laid hNext) hBody.firm rfl
  split
  · exact someName.bind hRest
  · exact hRest none d hStep.leads.inOrder.refl (.nil (le_refl _))

/-- The statement stands between the token it starts at and the one behind it. -/
abbrev Places (rule : Rule Stmt) : Prop :=
  ∀ c, Leads c (fun s d => Laid c.front [.stmt s] d) rule

/-- A statement, or what is passed over after one that gave up, and the line ends behind it. -/
theorem bindStatement? {statement : Rule Stmt} (hStatement : Places statement)
    {good : List Stmt → Cursor → Prop} {second : Option Stmt → Rule (List Stmt)}
    {found : List Stmt} (hFound : Laid p (found.map .stmt) c)
    (h : ∀ stmt? d, Laid p ((found ++ stmt?.toList).map .stmt) d → Leads d good (second stmt?)) :
    Leads c good (do
      let stmt? ← Rule.orElseNone statement
      if stmt?.isNone then Rule.resync
      Rule.skipNewlines
      second stmt?) := by
  refine (orElseNone (hStatement c)).bind fun stmt? d hLater hStmt => ?_
  have hMore : Laid p ((found ++ stmt?.toList).map .stmt) d := by
    rw [List.map_append]
    cases stmt? with
    | none => simpa using hFound.later hLater
    | some stmt => exact hFound.append (hStmt stmt rfl) hLater
  split
  · refine resync.bind fun _ e hPassed _ => skipNewlines.bind fun _ f hLines _ => ?_
    exact h stmt? f (hMore.later (hPassed.trans hLines))
  · exact skipNewlines.bind fun _ e hLines _ => h stmt? e (hMore.later hLines)

/-- By induction on the bound of rounds: statements stand one behind the other. -/
theorem statements {statement : Rule Stmt} (hStatement : Places statement) (fuel : Nat)
    {found : List Stmt} (hFound : Laid p (found.map .stmt) c) :
    Leads c (fun stmts d => Laid p (stmts.map .stmt) d)
      (Grammar.statements statement fuel found) := by
  induction fuel generalizing found c with
  | zero => exact pure hFound
  | succ fuel ih =>
      refine lookAt fun _ => lookAt fun _ => bindAny (fun _ => ⟨_, rfl⟩) fun _ => ?_
      exact ite (pure hFound) (bindStatement? hStatement hFound fun stmt? d hMore => ih hMore)

/-- A block covers its statements, from the opening brace to the closing one. -/
theorem blockOf {statement : Rule Stmt} (hStatement : Places statement) :
    SpansTree .block (Grammar.blockOf statement) := by
  refine fun c => bindCurrentSpan ((expect (by trivial)).bind fun _ d _ hOpen => ?_)
  refine skipNewlines.bind fun _ e hLines _ => bindRounds fun n => ?_
  refine (statements hStatement n (.nil hLines.front)).bind fun stmts f hNext hLaid => ?_
  refine (expect (by trivial)).bind fun _ g hClose hGood => bindSpanFrom (pure ?_)
  exact .enclosed hOpen.1 (hLines.trans (hNext.trans hClose)) (hLaid.later hClose) hGood.2 rfl

variable {block : Rule Block} {place : Rule Expr}

/-- A branch covers its condition, its block and what follows otherwise. -/
theorem branchOf {branch : Rule Branch} (hExpression : SpansTree .expr expression)
    (hBlock : SpansTree .block block) (hBranch : SpansFrom (fun b => .node (.branch b)) branch) :
    SpansFrom (fun b => .node (.branch b)) (Grammar.branchOf expression block branch) := by
  refine fun c hSolid => bindCurrentSpan (bindDiscard hSolid.ne_endOfInput fun d hStep => ?_)
  refine (hExpression d).bind fun condition e hCondition hFirst => ?_
  refine (hBlock e).bind fun body f hBody hSecond => ?_
  have hLaid := hFirst.laid.append hSecond.laid hBody
  have hLater := hCondition.trans hBody
  -- What follows otherwise is laid behind the block, and ends with a closing brace, too.
  let good (otherwise : Otherwise) (g : Cursor) : Prop :=
    Laid f.front (otherwise.parts.map .node) g ∧ g.Firm
  have hRest : ∀ otherwise g, f.LeadsTo g → good otherwise g →
      Leads g (fun b d => Stretch c.front (.node (.branch b)) d) (do
        return .mk (← Grammar.spanFrom c.current.span) condition body otherwise) :=
    fun otherwise g hNext hGood => bindSpanFrom (pure (.enclosed hStep (hLater.trans hNext)
      (hLaid.append hGood.1 hNext) hGood.2 rfl))
  refine bindAny (fun r => ⟨r, rfl⟩) fun r => ?_
  split
  · refine skipNewlines.bind fun _ g hLines _ => discardAdvance.bind fun _ i hElse _ => ?_
    have hBefore := hLines.trans hElse
    refine bindAt (fun hIf => ?_) ?_
    · have hNext : Leads i good (Otherwise.branch <$> branch) :=
        (hBranch i (hIf ▸ trivial)).map _ fun _ _ _ hThird =>
          ⟨hThird.laid.since hBefore.front, hThird.firm⟩
      exact hNext.bind fun otherwise j hLast hGood => hRest otherwise j (hBefore.trans hLast) hGood
    · have hNext : Leads i good (Otherwise.block <$> block) :=
        (hBlock i).map _ fun _ _ _ hThird => ⟨hThird.laid.since hBefore.front, hThird.firm⟩
      exact hNext.bind fun otherwise j hLast hGood => hRest otherwise j (hBefore.trans hLast) hGood
  · exact hRest .nothing f hBody.inOrder.refl ⟨.nil (le_refl _), hSecond.firm⟩

/-- A statement that ends here reaches from its first token, which has been read, to the token read
last. -/
theorem ended {children : List Child} {stmt : Span → Stmt} (hStep : c.StepsTo d) {e : Cursor}
    (hLater : d.LeadsTo e) (hLaid : Laid d.front children e) (hFirm : e.Firm)
    (hChildren : ∀ span, (stmt span).children = children)
    (hSpan : ∀ span, (stmt span).span = span) :
    Leads e (fun s f => Laid c.front [.stmt s] f) (Grammar.ended c.current.span stmt) := by
  refine bindSpanFrom (expectStatementEnd.bind fun _ f hNext _ => pure ?_)
  have hStretch : Stretch c.front (.stmt (stmt (c.current.span.merge e.passed))) e :=
    .enclosed hStep hLater (by rwa [Node.children, hChildren]) hFirm (hSpan _)
  exact hStretch.laid.later hNext

/-- The statement is read from a reserved word on. -/
abbrev PlacesFrom (rule : Rule Stmt) : Prop :=
  ∀ c, c.current.kind.IsSolid → Leads c (fun s d => Laid c.front [.stmt s] d) rule

/-- A statement of one reserved word. -/
theorem leafStatement {stmt : Span → Stmt} (hChildren : ∀ span, (stmt span).children = [])
    (hSpan : ∀ span, (stmt span).span = span) :
    PlacesFrom (do Grammar.ended (← Rule.advance).span stmt) :=
  fun _ hSolid => bindAdvance hSolid.ne_endOfInput fun _ hStep =>
    ended hStep hStep.leads.inOrder.refl (.nil (le_refl _)) (hStep.firm hSolid) hChildren hSpan

theorem bindStatement (hExpression : SpansTree .expr expression) :
    PlacesFrom (Grammar.bindStatement expression) := by
  refine fun c hSolid => bindAdvance hSolid.ne_endOfInput fun d hStep => ?_
  refine expectName.bind fun name e hName hFirst => ?_
  refine (expect (by trivial)).bind fun _ f hAssign _ => ?_
  refine (hExpression f).bind fun value g hNext hValue => ?_
  exact ended hStep (hName.trans (hAssign.trans hNext))
    ((hFirst.laid.later hAssign).append hValue.laid hNext) hValue.firm (fun _ => rfl) fun _ => rfl

theorem assignStatement (hExpression : SpansTree .expr expression)
    (hPlace : SpansTree .expr place) :
    PlacesFrom (Grammar.assignStatement expression place) := by
  refine fun c hSolid => bindAdvance hSolid.ne_endOfInput fun d hStep => ?_
  refine (hPlace d).bind fun target e hTarget hFirst => ?_
  have hRest : Leads e (fun s f => Laid c.front [.stmt s] f) (do
      Rule.expect (.symbol .assign)
      let value ← expression
      Grammar.ended c.current.span fun span => .assign span target value) := by
    refine (expect (by trivial)).bind fun _ f hAssign _ => ?_
    refine (hExpression f).bind fun value g hNext hValue => ?_
    exact ended hStep (hTarget.trans (hAssign.trans hNext))
      ((hFirst.laid.later hAssign).append hValue.laid hNext) hValue.firm (fun _ => rfl)
      fun _ => rfl
  split
  · exact hRest
  · exact (problemAt _ _ _).bind fun _ _ _ _ => fail

theorem forStatement (hExpression : SpansTree .expr expression) (hBlock : SpansTree .block block) :
    PlacesFrom (Grammar.forStatement expression block) := by
  refine fun c hSolid => bindAdvance hSolid.ne_endOfInput fun d hStep => ?_
  refine expectName.bind fun item e hItem hFirst => ?_
  have hRest : ∀ (index : Option Ident) f, e.LeadsTo f → Laid e.front (nameChildren index) f →
      Leads f (fun s g => Laid c.front [.stmt s] g) (do
        Rule.expect (.keyword .inWord)
        let iterable ← expression
        let body ← block
        Grammar.ended c.current.span fun span => .forEach span item index iterable body) := by
    intro index f hIndex hSecond
    refine (expect (by trivial)).bind fun _ g hIn _ => ?_
    refine (hExpression g).bind fun iterable i hIterable hThird => ?_
    refine (hBlock i).bind fun body j hBody hFourth => ?_
    have hNames := (hFirst.laid.append hSecond hIndex).later hIn
    have hRest := hThird.laid.append hFourth.laid hBody
    exact ended hStep (hItem.trans (hIndex.trans (hIn.trans (hIterable.trans hBody))))
      (hNames.append hRest (hIterable.trans hBody)) hFourth.firm (fun _ => rfl) fun _ => rfl
  refine bindEat (by simp) (fun f _ hComma => ?_)
    (hRest none e hItem.inOrder.refl (.nil (le_refl _)))
  exact someName.bind fun index g hIndex hSecond =>
    hRest index g (hComma.leads.trans hIndex) (hSecond.since hComma.leads.front)

theorem whileStatement (hExpression : SpansTree .expr expression)
    (hBlock : SpansTree .block block) :
    PlacesFrom (Grammar.whileStatement expression block) := by
  refine fun c hSolid => bindAdvance hSolid.ne_endOfInput fun d hStep => ?_
  refine (hExpression d).bind fun condition e hCondition hFirst => ?_
  refine (hBlock e).bind fun body f hBody hSecond => ?_
  exact ended hStep (hCondition.trans hBody) (hFirst.laid.append hSecond.laid hBody) hSecond.firm
    (fun _ => rfl) fun _ => rfl

/-- An expression that may be missing. -/
theorem someExpression (hExpression : SpansTree .expr expression) (c : Cursor) :
    Leads c (fun e? d => Laid c.front (e?.toList.map .expr) d ∧ d.Firm) (some <$> expression) :=
  (hExpression c).map _ fun _ _ _ hValue => ⟨hValue.laid, hValue.firm⟩

theorem resultStatement (hExpression : SpansTree .expr expression) :
    PlacesFrom (Grammar.resultStatement expression) := by
  refine fun c hSolid => bindAdvance hSolid.ne_endOfInput fun d hStep => ?_
  have hRest : ∀ (value : Option Expr) e, d.LeadsTo e →
      Laid d.front (value.toList.map .expr) e ∧ e.Firm →
      Leads e (fun s f => Laid c.front [.stmt s] f)
        (Grammar.ended c.current.span fun span => .result span value) :=
    fun value e hLater hGood => ended hStep hLater hGood.1 hGood.2 (fun _ => rfl) fun _ => rfl
  have hNone := hRest none d hStep.leads.inOrder.refl ⟨.nil (le_refl _), hStep.firm hSolid⟩
  refine bindPeek ?_
  split
  · exact hNone
  · exact hNone
  · exact hNone
  · exact (someExpression hExpression d).bind hRest

theorem checkStatement (hExpression : SpansTree .expr expression) :
    PlacesFrom (Grammar.checkStatement expression) := by
  refine fun c hSolid => bindAdvance hSolid.ne_endOfInput fun d hStep => ?_
  refine (hExpression d).bind fun condition e hCondition hFirst => ?_
  have hRest : ∀ (message : Option Expr) f, e.LeadsTo f →
      Laid e.front (message.toList.map .expr) f ∧ f.Firm →
      Leads f (fun s g => Laid c.front [.stmt s] g)
        (Grammar.ended c.current.span fun span => .check span condition message) :=
    fun message f hLater hGood => ended hStep (hCondition.trans hLater)
      (hFirst.laid.append hGood.1 hLater) hGood.2 (fun _ => rfl) fun _ => rfl
  refine bindEat (by simp) (fun f _ hComma => ?_)
    (hRest none e hCondition.inOrder.refl ⟨.nil (le_refl _), hFirst.firm⟩)
  exact (someExpression hExpression f).bind fun message g hNext hGood =>
    hRest message g (hComma.leads.trans hNext) ⟨hGood.1.since hComma.leads.front, hGood.2⟩

/-- By induction on the bound of rounds: names of a list stand one behind the other. -/
theorem moreNames (fuel : Nat) {found : List Ident} (hFound : Laid p (found.map .name) c)
    (hFirm : c.Firm) :
    Leads c (fun names d => Laid p (names.map .name) d ∧ d.Firm)
      (Grammar.moreNames fuel found) := by
  induction fuel generalizing found c with
  | zero => exact fail
  | succ fuel ih =>
      refine bindEat (by simp) (fun d _ hComma => ?_) (pure ⟨hFound, hFirm⟩)
      refine expectName.bind fun name e hNext hName => ih ?_ hName.firm
      rw [List.map_append]
      exact (hFound.later hComma.leads).append hName.laid hNext

/-- A list of globals covers its names, from the word to the last of them. -/
theorem globalsStatement : PlacesFrom Grammar.globalsStatement := by
  refine fun c hSolid => bindAdvance hSolid.ne_endOfInput fun d hStep => ?_
  refine expectName.bind fun first e hFirst hName => bindRounds fun n => ?_
  have hLaid : Laid d.front ([first].map .name) e := hName.laid
  refine (moreNames n hLaid hName.firm).bind fun names f hNames hGood => ?_
  exact ended hStep (hFirst.trans hNames) hGood.1 hGood.2 (fun _ => rfl) fun _ => rfl

theorem expressionStatement (hExpression : SpansTree .expr expression) :
    Places (Grammar.expressionStatement expression) := by
  refine fun c => (hExpression c).bind fun value d _ hValue => ?_
  have hRest : Leads d (fun s e => Laid c.front [.stmt s] e) (do
      Rule.expectStatementEnd
      return .expr value) :=
    expectStatementEnd.bind fun _ e hNext _ => pure ((hValue.only rfl rfl).laid.later hNext)
  have hRefuse : ∀ message, Leads d (fun _ _ => False) (Rule.unexpected message : Rule Unit) :=
    unexpected
  refine bindAt (fun _ => ?_) hRest
  exact (hRefuse _).bind fun _ _ _ hNever => hNever.elim

/-- Every statement covers its parts; which rule reads it depends on the word at its start. -/
theorem statementOf {declaration : Rule Function} {branch : Rule Branch}
    (hExpression : SpansTree .expr expression) (hPlace : SpansTree .expr place)
    (hDeclaration : SpansFrom (fun f => .node (.function f)) declaration)
    (hBlock : SpansTree .block block) (hBranch : SpansFrom (fun b => .node (.branch b)) branch) :
    Places (Grammar.statementOf expression place declaration block branch) := by
  refine fun c => bindPeek ?_
  split
  next hWord => exact bindStatement hExpression c (hWord ▸ trivial)
  next hWord => exact assignStatement hExpression hPlace c (hWord ▸ trivial)
  next hWord =>
    refine bindPeekNext fun next => ?_
    split
    · refine (hDeclaration c (hWord ▸ trivial)).bind fun f d _ hFunction => ?_
      exact expectStatementEnd.bind fun _ e hNext _ =>
        pure ((hFunction.only rfl rfl).laid.later hNext)
    · exact expressionStatement hExpression c
  next hWord =>
    refine (hBranch c (hWord ▸ trivial)).bind fun b d _ hFirst => ?_
    exact expectStatementEnd.bind fun _ e hNext _ => pure ((hFirst.only rfl rfl).laid.later hNext)
  next hWord => exact forStatement hExpression hBlock c (hWord ▸ trivial)
  next hWord => exact whileStatement hExpression hBlock c (hWord ▸ trivial)
  next hWord => exact leafStatement (fun _ => rfl) (fun _ => rfl) c (hWord ▸ trivial)
  next hWord => exact leafStatement (fun _ => rfl) (fun _ => rfl) c (hWord ▸ trivial)
  next hWord => exact resultStatement hExpression c (hWord ▸ trivial)
  next hWord => exact checkStatement hExpression c (hWord ▸ trivial)
  next hWord => exact globalsStatement c (hWord ▸ trivial)
  next => exact expressionStatement hExpression c

/-- All rules of one nesting yield what reaches from the first token they read to the last. -/
structure RulesSpan (fuel : Nat) : Prop where
  expression : SpansTree .expr (Grammar.expression fuel)
  unary : SpansTree .expr (Grammar.unary fuel)
  postfixes : SpansTree .expr (Grammar.postfixes fuel)
  primary : SpansTree .expr (Grammar.primary fuel)
  function : ∀ named, SpansFrom (fun f => .node (.function f)) (Grammar.function fuel named)
  block : SpansTree .block (Grammar.block fuel)
  branch : SpansFrom (fun b => .node (.branch b)) (Grammar.branch fuel)
  statement : Places (Grammar.statement fuel)

/-- By induction on the bound of depth: the ranges that rules give cover those of the parts, in
their order. -/
theorem rulesSpan (fuel : Nat) : RulesSpan fuel := by
  induction fuel with
  | zero =>
      exact ⟨fun _ => fail, fun _ => fail, fun _ => fail, fun _ => fail, fun _ _ _ => fail,
        fun _ => fail, fun _ _ => fail, fun _ => fail⟩
  | succ fuel ih =>
      refine ⟨?_, ?_, ?_, ?_, ?_, ?_, ?_, ?_⟩
      · exact fun c => nested (operators ih.unary c)
      · exact unaryOf ih.unary ih.postfixes
      · exact postfixesOf ih.expression ih.primary
      · exact primaryOf ih.expression (ih.function false)
      · exact functionOf ih.block
      · exact blockOf ih.statement
      · exact branchOf ih.expression ih.block ih.branch
      · exact statementOf ih.expression ih.postfixes (ih.function true) ih.block ih.branch

/-- Statements of the top level stand one behind the other up to the end of the input. -/
theorem topLevel {statement : Rule Stmt} (hStatement : Places statement) (fuel : Nat)
    {found : List Stmt} (hFound : Laid p (found.map .stmt) c) :
    Leads c (fun stmts d => Laid p (stmts.map .stmt) d)
      (Grammar.topLevel statement fuel found) := by
  induction fuel generalizing found c with
  | zero => exact pure hFound
  | succ fuel ih =>
      refine lookAt fun _ => bindAny (fun _ => ⟨_, rfl⟩) fun _ => ?_
      refine ite (pure hFound) (lookAt fun _ => ite ?_ ?_)
      · refine (problem _ _).bind ?_
        rintro _ _ _ rfl
        refine discardAdvance.bind fun _ e hNext _ => skipNewlines.bind fun _ f hLines _ => ih ?_
        exact hFound.later (hNext.trans hLines)
      · exact bindStatement? hStatement hFound fun stmt? d hMore => ih hMore

/-- Whatever script is read, the ranges of its nodes nest. -/
theorem program (fuel : Nat) :
    Leads c (fun program _ => program.RangesNest) (Grammar.program fuel) := by
  refine skipNewlines.bind fun _ d hLines _ => bindCurrentSpan (bindRounds fun n => ?_)
  have hNone : Laid d.front ([].map .stmt) d := .nil (le_refl _)
  refine (topLevel (rulesSpan fuel).statement n hNone).bind fun stmts e hNext hLaid => ?_
  refine bindSpanFrom (pure ?_)
  have hFirst := Span.covers_merge_left d.current.span e.passed
  have hLast := Span.covers_merge_right d.current.span e.passed
  have hMem : ∀ s ∈ stmts, Child.stmt s ∈ stmts.map .stmt := fun s => List.mem_map_of_mem
  exact {
    nodes := fun s hs node hNode => Node.Nests.rangesNest fun part hPart =>
      hLaid.nests _ (hMem s hs) part (hPart.trans hNode)
    ordered := hFirst.start.trans ((hLines.inOrder.ordered _ List.mem_cons_self).trans hFirst.stop)
    covers := fun s hs => ⟨hFirst.start.trans (hLaid.start _ (hMem s hs)),
      (hLaid.reached _ (hMem s hs)).trans hLast.stop⟩
    apart := List.pairwise_map.1 hLaid.apart }

end Leads

/-- The tokens of a script without faults are in order. -/
theorem inOrder_start {file : SourceFile} (h : (tokens file).2.total = 0) :
    (start file).cursor.InOrder := by
  obtain ⟨q, hPlaced⟩ := exists_placedInOrder file h
  obtain ⟨more, last, hTokens, hLast, -⟩ := ended_start file
  have hEnded : ∀ t ∈ ((start file).cursor.current :: (start file).cursor.upcoming).getLast?,
      t.kind = .mark .endOfInput := by
    rw [hTokens, List.getLast?_concat]
    rintro t ⟨⟩
    exact hLast
  unfold start at hEnded ⊢
  generalize (tokens file).1 = ts at hPlaced hEnded ⊢
  cases ts with
  | nil => exact ⟨hEnded, by simp [Cursor.ofTokens, Span.Ordered, Span.point],
      List.pairwise_singleton _ _, le_refl _, le_refl _, le_refl _⟩
  | cons t ts =>
      have hStart := hPlaced.start t List.mem_cons_self
      exact ⟨hEnded, hPlaced.ordered, hPlaced.precede, le_refl _, hStart,
        hStart.trans (hPlaced.ordered t List.mem_cons_self)⟩

/-- Wherever a program is read, the range of each statement, block, function and expression covers
those of all names and nodes inside it, ranges start no later than they end, and what is directly
inside a node stands in the order it is written in. -/
theorem rangesNest_of_parse {file : SourceFile} {program : Program}
    (h : (parse file).program = some program) : program.RangesNest := by
  have hClean := (isSome_program_parse file).1 (Option.isSome_of_eq_some h)
  obtain ⟨program', r, hRead⟩ := exists_readsProgram file
  rw [parse_eq, if_neg (by simp [Report.hasProblems, hClean.1]), hRead.parseTokens_eq] at h
  have hArrival := Leads.program (nesting file) (inOrder_start hClean.1) (start file) rfl
  rw [hRead.run _ (Nat.le_refl _)] at hArrival
  dsimp only at h
  split at h
  next => cases h
  next =>
    obtain rfl := Option.some.inj h
    exact hArrival.2

/-- Functions, calls and holes of strings that stand inside each other over several lines. -/
def layered : SourceFile := .ofText "layered"
  ("fn f(a, b) \x7b\n  return \"<$\x7ba.x[0]\x7d>\"\n\x7d\n\n" ++
    "let y = f(b: [1, -2],\n  a: \x7bk: (3)\x7d)\n")

theorem rangesNest_layered : ∃ program, (parse layered).program = some program ∧
    program.stmts.length = 2 ∧ program.RangesNest := by
  have hRead : ((parse layered).program.map (·.stmts.length)) = some 2 := by decide +kernel
  obtain ⟨program, hSome, hLength⟩ := Option.map_eq_some_iff.1 hRead
  exact ⟨program, hSome, hLength, rangesNest_of_parse hSome⟩

end Metagen.Script
