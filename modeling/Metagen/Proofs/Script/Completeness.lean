import Metagen.Proofs.Script.Expressions

/-! Everything that the grammar asks for is accepted: a script of its shape that is not nested too
deep is read back from the tokens it is written with, one statement a line. -/

namespace Metagen.Script

open Grammar

section

variable {bound : Nat}

/-- A function that is written is read back: its name, its parameters and its block. -/
theorem takesFunction_functionOf {block : Rule Block} (hBlock : TakesBlock (bound - 1) block)
    (named : Bool) : TakesFunction named bound (functionOf block named) := by
  rintro ⟨span, name, params, body⟩ d before after h hNamed hBound
  obtain ⟨b₁, rfl, hRest⟩ := LeavesTokens.token h.written
  obtain ⟨_, hName, hOpen⟩ := hRest.append
  obtain ⟨b₂, rfl, hInside⟩ := hOpen.token
  obtain ⟨_, hParams, hClose⟩ := hInside.append
  obtain ⟨b₃, rfl, hBody⟩ := hClose.token
  have hLess := hName.length_le
  have hLonger := hParams.length_le
  simp only [List.length_cons] at hBound hLess hLonger
  have hBodyPhrase : Phrase (.block body) d b₃ after :=
    ⟨hBody, h.shaped.part (by simp [Node.parts, Function.body]), h.shallow⟩
  have hNames : (params.map (·.name)).Nodup := h.shaped.fitsGrammar
  have hRule := takesItems_params (d := d) hNames (bound - 1)
  refine .bindCurrentSpan fun start => .bindDiscard ?_
  have hFrom : ∀ name' : Option Ident, name'.map Ident.bare = name.map Ident.bare →
      TakesTokens d (.mark (.symbol .leftParen) :: b₂) after
        (·.bare = (Function.mk span name params body).bare) (do
        Rule.expect (.symbol .leftParen)
        let params ← Rule.separatedUpTo (.symbol .rightParen) parameter
        let body ← block
        return Function.mk (← spanFrom start) name' params body) := by
    intro name' hSame
    refine .bindExpect ?_
    refine (TakesTokens.separatedUpTo hRule rfl (by simp) hParams (by omega)).bind
      fun ps hParams => ?_
    refine (hBlock hBodyPhrase (by omega)).bind fun body' hBody => ?_
    exact .bindSpanFrom fun span => .pure (by simp [Function.bare, hSame, hParams, hBody])
  cases name with
  | none =>
      obtain rfl : named = false := hNamed.symm
      obtain rfl := hName.of_nil
      exact hFrom none rfl
  | some n =>
      obtain rfl : named = true := hNamed.symm
      obtain rfl := hName.single
      refine (TakesTokens.map some (.expectName n.name) fun m hSame => ?_).bind hFrom
      simp [Ident.bare, hSame]

end

/-- What comes after the line end behind a statement. -/
structure EndsStatement (ks : List TokenKind) : Prop where
  noLine : firstKind ks ≠ .mark .newline
  noElse : firstKind ks ≠ .mark (.keyword .elseWord)

/-- The rule reads every statement and the end of its line, if fewer tokens than said are left. -/
def TakesStmt (bound : Nat) (rule : Rule Stmt) : Prop :=
  ∀ ⦃s : Stmt⦄ ⦃d : Nat⦄ ⦃before after : List TokenKind⦄,
    Phrase (.stmt s) d before (.mark .newline :: after) → EndsStatement after →
      before.length < bound →
      TakesTokens d before after (·.bare = s.bare) rule

/-- The rule reads every branch at the end of a line, if fewer tokens than said are left. -/
def TakesBranch (bound : Nat) (rule : Rule Branch) : Prop :=
  ∀ ⦃b : Branch⦄ ⦃d : Nat⦄ ⦃before after : List TokenKind⦄,
    Phrase (.branch b) d before (.mark .newline :: after) → EndsStatement after →
      before.length < bound →
      TakesTokens d before (.mark .newline :: after) (·.bare = b.bare) rule

namespace Phrase

variable {node : Node} {d : Nat} {before after before' after' : List TokenKind}

/-- An expression that a node contains. -/
theorem exprInside (h : Phrase node d before after) {e : Expr} (hPart : .expr e ∈ node.parts)
    (hLess : e.nesting < node.nesting) (hWritten : LeavesTokens (e.written line) before' after') :
    Phrase (.expr e) (d + 1) before' after' := by
  refine ⟨hWritten, h.shaped.part hPart, ?_⟩
  have hShallow := h.shallow
  change d + 1 + e.nesting ≤ _
  omega

/-- A part that stands where its node does. -/
theorem part (h : Phrase node d before after) (part : Node) (hPart : part ∈ node.parts)
    (hLess : part.nesting ≤ node.nesting)
    (hWritten : LeavesTokens (part.written line) before' after') :
    Phrase part d before' after' :=
  ⟨hWritten, h.shaped.part hPart, by have hShallow := h.shallow; omega⟩

/-- A block starts with its brace. -/
theorem block_opens {b : Block} (h : Phrase (.block b) d before after) :
    firstKind before = .mark (.symbol .leftBrace) := by
  obtain ⟨span, stmts⟩ := b
  obtain ⟨rest, rfl, -⟩ := LeavesTokens.token h.written
  rfl

end Phrase

def TokenKind.opensStmt (k : TokenKind) : Bool :=
  k.opensExpr || k.keyword?.any fun word =>
    word ∈ [.letWord, .setWord, .fnWord, .ifWord, .forWord, .whileWord, .breakWord, .continueWord,
      .returnWord, .assertWord, .globalWord]

/-- With which token a statement starts. -/
theorem Phrase.stmt_opens {s : Stmt} {d : Nat} {before after : List TokenKind}
    (h : Phrase (.stmt s) d before (.mark .newline :: after)) :
    (firstKind before).opensStmt = true := by
  match s with
  | .expr e =>
      have hPhrase : Phrase (.expr e) (d + 1) before (.mark .newline :: after) :=
        h.exprInside (by simp [Node.parts, Stmt.parts]) (Nat.lt_succ_self _) h.written
      obtain ⟨k, rest, rfl, hOpens⟩ := hPhrase.opensExpression (by simp)
      simp [TokenKind.opensStmt, hOpens.opens]
  | .bind .. | .assign .. | .function (.mk ..) | .branch (.mk ..) | .forEach .. | .whileTrue ..
  | .leave _ | .next _ | .result _ none | .result _ (some _) | .check _ _ none
  | .check _ _ (some _) | .globals .. =>
      obtain ⟨rest, rfl, -⟩ := LeavesTokens.token h.written
      rfl

theorem TokenKind.ne_of_opensStmt {k k' : TokenKind} (h : k.opensStmt = true)
    (hOther : k'.opensStmt = false) : k ≠ k' := by
  rintro rfl
  rw [h] at hOther
  cases hOther

section

variable {bound d : Nat} {before after : List TokenKind} {expression : Rule Expr}

/-- A statement ends with its line. -/
theorem takesTokens_ended {start : Span} {stmt : Span → Stmt} {s : Stmt}
    (hAfter : EndsStatement after)
    (hSame : ∀ span, (stmt span).bare = s.bare) :
    TakesTokens d (.mark .newline :: after) after (·.bare = s.bare) (ended start stmt) := by
  refine .bindSpanFrom fun span => .bindStatementEnd ?_
  rw [pastLines_of_ne hAfter.noLine]
  exact .pure (hSame span)

/-- A binding that is written is read back, up to the end of its line. -/
theorem takesTokens_bindStatement (hExpression : TakesExpr 1 0 (bound - 1) expression) {span : Span}
    {n : Ident} {value : Expr}
    (h : Phrase (.stmt (.bind span n value)) d before (.mark .newline :: after))
    (hAfter : EndsStatement after) (hBound : before.length < bound) :
    TakesTokens d before after (·.bare = (Stmt.bind span n value).bare)
      (bindStatement expression) := by
  obtain ⟨_, rfl, hRest⟩ := LeavesTokens.token h.written
  obtain ⟨_, rfl, hAssign⟩ := hRest.token
  obtain ⟨rest, rfl, hValue⟩ := hAssign.token
  simp only [List.length_cons] at hBound
  have hPhrase := h.exprInside (by simp [Node.parts, Stmt.parts]) (Nat.lt_succ_self _) hValue
  refine .bindAdvance fun t => .bindName fun span => .bindExpect ?_
  refine (hExpression.inside hPhrase rfl (by omega)).bind fun found hFound => ?_
  exact takesTokens_ended hAfter fun span => by simp [Stmt.bare, Ident.bare, hFound]

theorem isPlace_bare (e : Expr) : isPlace e.bare = isPlace e := by
  cases e <;> rfl

/-- An assignment that is written is read back, up to the end of its line. -/
theorem takesTokens_assignStatement (hExpression : TakesExpr 1 0 (bound - 1) expression)
    {place : Rule Expr} (hPlace : TakesExpr 0 6 (bound - 1) place) {span : Span}
    {target value : Expr}
    (h : Phrase (.stmt (.assign span target value)) d before (.mark .newline :: after))
    (hAfter : EndsStatement after) (hBound : before.length < bound) :
    TakesTokens d before after (·.bare = (Stmt.assign span target value).bare)
      (assignStatement expression place) := by
  obtain ⟨_, rfl, hRest⟩ := LeavesTokens.token h.written
  obtain ⟨_, hTarget, hAssign⟩ := hRest.append
  obtain ⟨rest, rfl, hValue⟩ := hAssign.token
  have hLess := hTarget.length_le
  simp only [List.length_cons] at hBound hLess
  have hFits : target.IsPlace := h.shaped.fitsGrammar
  have hTargetPhrase := h.part (.expr target) (by simp [Node.parts, Stmt.parts])
    (Nat.le_max_left _ _) hTarget
  have hValuePhrase := h.exprInside (by simp [Node.parts, Stmt.parts])
    (Nat.le_max_right target.nesting (value.nesting + 1)) hValue
  have hStrong : 6 ≤ target.strength ∧ isPlace target = true := by
    cases target <;> first | exact ⟨Nat.le_refl _, rfl⟩ | exact hFits.elim
  refine .bindAdvance fun t => ?_
  refine (hPlace hTargetPhrase hStrong.1 (.of_closes rfl 6) (by omega)).bind fun found hFound => ?_
  have hIsPlace : isPlace found = true := by rw [← isPlace_bare, hFound, isPlace_bare, hStrong.2]
  rw [hIsPlace]
  refine .bindExpect ?_
  refine (hExpression.inside hValuePhrase rfl (by omega)).bind fun found' hFound' => ?_
  exact takesTokens_ended hAfter fun span => by simp [Stmt.bare, hFound, hFound']

/-- A loop over items that is written is read back, up to the end of its line. -/
theorem takesTokens_forStatement (hExpression : TakesExpr 1 0 (bound - 1) expression)
    {block : Rule Block}
    (hBlock : TakesBlock (bound - 1) block) {span : Span} {item : Ident} {index : Option Ident}
    {iterable : Expr} {body : Block}
    (h : Phrase (.stmt (.forEach span item index iterable body)) d before (.mark .newline :: after))
    (hAfter : EndsStatement after) (hBound : before.length < bound) :
    TakesTokens d before after (·.bare = (Stmt.forEach span item index iterable body).bare)
      (forStatement expression block) := by
  obtain ⟨_, rfl, hItem⟩ := LeavesTokens.token h.written
  obtain ⟨b₁, rfl, hRest⟩ := hItem.token
  obtain ⟨_, hIndex, hIn⟩ := hRest.append
  obtain ⟨b₂, rfl, hInside⟩ := hIn.token
  obtain ⟨b₃, hIterable, hBody⟩ := hInside.append
  have hLess := hIndex.length_le
  have hLonger := hIterable.length_le
  simp only [List.length_cons] at hBound hLess
  have hIterablePhrase := h.exprInside (by simp [Node.parts, Stmt.parts])
    (Nat.le_max_left (iterable.nesting + 1) body.nesting) hIterable
  have hBodyPhrase := h.part (.block body) (by simp [Node.parts, Stmt.parts])
    (Nat.le_max_right _ _) hBody
  have hFrom : ∀ (start span : Span) (index' : Option Ident),
      index'.map Ident.bare = index.map Ident.bare →
      TakesTokens d (.mark (.keyword .inWord) :: b₂) after
        (·.bare = (Stmt.forEach span item index iterable body).bare) (do
        Rule.expect (.keyword .inWord)
        let iterable ← expression
        let body ← block
        ended start fun whole => .forEach whole ⟨item.name, span⟩ index' iterable body) := by
    intro start span index' hSame
    refine .bindExpect ?_
    refine (hExpression.inside hIterablePhrase ?_ (by omega)).bind fun found hFound => ?_
    · rw [hBodyPhrase.block_opens]
      rfl
    · refine (hBlock hBodyPhrase (by omega)).bind fun found' hFound' => ?_
      exact takesTokens_ended hAfter
        fun span => by simp [Stmt.bare, Ident.bare, hFound, hFound', hSame]
  refine .bindAdvance fun t => .bindName fun span => ?_
  cases index with
  | none =>
      obtain rfl := hIndex.of_nil
      exact .bindEatNone (by simp) (hFrom _ span none rfl)
  | some n =>
      obtain ⟨_, rfl, hName⟩ := hIndex.token
      obtain rfl := hName.single
      refine .bindEat ((TakesTokens.map some (.expectName n.name) fun m hSame => ?_).bind
        (hFrom _ span))
      simp [Ident.bare, hSame]

/-- A loop with a condition that is written is read back, up to the end of its line. -/
theorem takesTokens_whileStatement (hExpression : TakesExpr 1 0 (bound - 1) expression)
    {block : Rule Block} (hBlock : TakesBlock (bound - 1) block) {span : Span} {condition : Expr}
    {body : Block}
    (h : Phrase (.stmt (.whileTrue span condition body)) d before (.mark .newline :: after))
    (hAfter : EndsStatement after) (hBound : before.length < bound) :
    TakesTokens d before after (·.bare = (Stmt.whileTrue span condition body).bare)
      (whileStatement expression block) := by
  obtain ⟨b₁, rfl, hRest⟩ := LeavesTokens.token h.written
  obtain ⟨b₂, hCondition, hBody⟩ := hRest.append
  have hLess := hCondition.length_le
  rw [List.length_cons] at hBound
  have hConditionPhrase := h.exprInside (by simp [Node.parts, Stmt.parts])
    (Nat.le_max_left (condition.nesting + 1) body.nesting) hCondition
  have hBodyPhrase := h.part (.block body) (by simp [Node.parts, Stmt.parts])
    (Nat.le_max_right _ _) hBody
  refine .bindAdvance fun t => ?_
  refine (hExpression.inside hConditionPhrase ?_ (by omega)).bind fun found hFound => ?_
  · rw [hBodyPhrase.block_opens]
    rfl
  · refine (hBlock hBodyPhrase (by omega)).bind fun found' hFound' => ?_
    exact takesTokens_ended hAfter fun span => by simp [Stmt.bare, hFound, hFound']

/-- A return statement that is written is read back: what may start an expression tells whether
there is a value. -/
theorem takesTokens_resultStatement (hExpression : TakesExpr 1 0 (bound - 1) expression)
    {span : Span}
    {value : Option Expr}
    (h : Phrase (.stmt (.result span value)) d before (.mark .newline :: after))
    (hAfter : EndsStatement after) (hBound : before.length < bound) :
    TakesTokens d before after (·.bare = (Stmt.result span value).bare)
      (resultStatement expression) := by
  cases value with
  | none =>
      obtain rfl := LeavesTokens.single h.written
      refine .bindAdvance fun t => .bindPeek ?_
      change TakesTokens d _ after _ (ended t.span fun span => .result span none)
      exact takesTokens_ended hAfter fun span => rfl
  | some e =>
      obtain ⟨rest, rfl, hValue⟩ := LeavesTokens.token h.written
      rw [List.length_cons] at hBound
      have hPhrase := h.exprInside (by simp [Node.parts, Stmt.parts]) (Nat.lt_succ_self _) hValue
      refine .bindAdvance fun t => .bindPeek ?_
      have hRead : TakesTokens d rest after (·.bare = (Stmt.result span (some e)).bare) (do
          let value ← some <$> expression
          ended t.span fun span => .result span value) := by
        refine (hExpression.inside hPhrase rfl (by omega)).mapSome.bind ?_
        rintro _ ⟨found, rfl, hFound⟩
        exact takesTokens_ended hAfter fun span => by simp [Stmt.bare_result, hFound]
      split
      next hLine => exact (hPhrase.firstKind_ne rfl rfl hLine).elim
      next hBrace => exact (hPhrase.firstKind_ne rfl rfl hBrace).elim
      next hEnd => exact (hPhrase.firstKind_ne rfl rfl hEnd).elim
      next => exact hRead

/-- An assertion that is written is read back: a comma tells whether there is a message. -/
theorem takesTokens_checkStatement (hExpression : TakesExpr 1 0 (bound - 1) expression)
    {span : Span}
    {condition : Expr} {message : Option Expr}
    (h : Phrase (.stmt (.check span condition message)) d before (.mark .newline :: after))
    (hAfter : EndsStatement after) (hBound : before.length < bound) :
    TakesTokens d before after (·.bare = (Stmt.check span condition message).bare)
      (checkStatement expression) := by
  cases message with
  | none =>
      obtain ⟨rest, rfl, hCondition⟩ := LeavesTokens.token h.written
      rw [List.length_cons] at hBound
      have hPhrase :=
        h.exprInside (by simp [Node.parts, Stmt.parts]) (Nat.lt_succ_self _) hCondition
      refine .bindAdvance fun t => ?_
      refine (hExpression.inside hPhrase rfl (by omega)).bind fun found hFound => ?_
      refine .bindEatNone (by simp) ?_
      change TakesTokens d _ after _ (ended t.span fun span => .check span found none)
      exact takesTokens_ended hAfter fun span => by simp [Stmt.bare_check, hFound]
  | some e =>
      obtain ⟨b₁, rfl, hRest⟩ := LeavesTokens.token h.written
      obtain ⟨_, hCondition, hComma⟩ := hRest.append
      obtain ⟨b₂, rfl, hMessage⟩ := hComma.token
      have hLess := hCondition.length_le
      simp only [List.length_cons] at hBound hLess
      have hPhrase := h.exprInside (by simp [Node.parts, Stmt.parts])
        (Nat.le_max_left (condition.nesting + 1) (e.nesting + 1)) hCondition
      have hMessagePhrase := h.exprInside (by simp [Node.parts, Stmt.parts])
        (Nat.le_max_right (condition.nesting + 1) (e.nesting + 1)) hMessage
      refine .bindAdvance fun t => ?_
      refine (hExpression.inside hPhrase rfl (by omega)).bind fun found hFound => .bindEat ?_
      refine (hExpression.inside hMessagePhrase rfl (by omega)).mapSome.bind ?_
      rintro _ ⟨found', rfl, hFound'⟩
      exact takesTokens_ended hAfter fun span => by simp [Stmt.bare_check, hFound, hFound']

/-- Names start with the first one. -/
theorem LeavesTokens.names {n : Ident} {rest : List Ident} {before after : List TokenKind}
    (h : LeavesTokens (Written.names (n :: rest)) before after) :
    ∃ others, before = .name n.name :: others := by
  cases rest with
  | nil => exact ⟨_, h.single⟩
  | cons next more =>
      obtain ⟨others, rfl, -⟩ := h.token
      exact ⟨others, rfl⟩

/-- The names after the first one are read, each with the comma in front of it. -/
theorem takesTokens_moreNames (fuel : Nat) (n : Ident) (names found : List Ident)
    {before after : List TokenKind}
    (h : LeavesTokens (Written.names (n :: names)) (.name n.name :: before)
      (.mark .newline :: after))
    (hFuel : before.length < fuel) :
    TakesTokens d before (.mark .newline :: after)
      (fun result => result.map Ident.bare = (found ++ names).map Ident.bare)
      (moreNames fuel found) := by
  induction fuel generalizing n names found before with
  | zero => cases hFuel
  | succ fuel ih =>
      cases names with
      | nil =>
          obtain ⟨_, hSame⟩ := List.cons.inj h.single
          subst hSame
          exact .bindEatNone (by simp) (.pure (by rw [List.append_nil]))
      | cons next rest =>
          obtain ⟨_, hSame, hComma⟩ := h.token
          obtain ⟨-, rfl⟩ := List.cons.inj hSame
          obtain ⟨b₁, rfl, hNames⟩ := hComma.token
          obtain ⟨b₂, rfl⟩ := hNames.names
          simp only [List.length_cons] at hFuel
          refine .bindEat (.bindName fun span => ?_)
          refine (ih next rest (found ++ [⟨next.name, span⟩]) hNames (by omega)).imp
            fun result hResult => ?_
          rw [hResult]
          simp [Ident.bare]

/-- A list of globals that is written is read back, name by name. -/
theorem takesTokens_globalsStatement {span : Span} {names : List Ident}
    (h : Phrase (.stmt (.globals span names)) d before (.mark .newline :: after))
    (hAfter : EndsStatement after) :
    TakesTokens d before after (·.bare = (Stmt.globals span names).bare) globalsStatement := by
  have hFits : names ≠ [] := h.shaped.fitsGrammar
  obtain ⟨n, rest, rfl⟩ := List.exists_cons_of_ne_nil hFits
  obtain ⟨b₁, rfl, hNames⟩ := LeavesTokens.token h.written
  obtain ⟨b₂, rfl⟩ := LeavesTokens.names hNames
  refine .bindAdvance fun t => .bindName fun span => .bindRounds fun fuel hFuel => ?_
  refine (takesTokens_moreNames fuel n rest [⟨n.name, span⟩] hNames hFuel).bind
    fun found hFound => ?_
  exact takesTokens_ended hAfter fun span => by simp [Stmt.bare, hFound, Ident.bare]

/-- An expression that stands as a statement is read back, unless it starts with the word of a
statement. -/
theorem takesTokens_expressionStatement (hExpression : TakesExpr 1 0 bound expression) {e : Expr}
    (h : Phrase (.stmt (.expr e)) d before (.mark .newline :: after)) (hAfter : EndsStatement after)
    (hBound : before.length < bound) :
    TakesTokens d before after (·.bare = (Stmt.expr e).bare) (expressionStatement expression) := by
  have hPhrase := h.exprInside (by simp [Node.parts, Stmt.parts]) (Nat.lt_succ_self _) h.written
  refine (hExpression.inside hPhrase rfl hBound).bind fun found hFound => .bindAt ?_
  refine .iteNeg (by simp) (.bindStatementEnd ?_)
  rw [pastLines_of_ne hAfter.noLine]
  exact .pure (by simp [Stmt.bare, hFound])

/-- What follows a block of a branch: nothing, and then no word that would go on, or a block, or
another branch. -/
theorem takesTokens_branchOf (hExpression : TakesExpr 1 0 (bound - 1) expression)
    {block : Rule Block}
    (hBlock : TakesBlock (bound - 1) block) {branch : Rule Branch}
    (hBranch : TakesBranch (bound - 1) branch) :
    TakesBranch bound (branchOf expression block branch) := by
  rintro ⟨span, condition, body, otherwise⟩ d before after h hAfter hBound
  obtain ⟨b₁, rfl, hRest⟩ := LeavesTokens.token h.written
  obtain ⟨b₃, hInside, hOtherwise⟩ := hRest.append
  obtain ⟨b₂, hCondition, hBody⟩ := hInside.append
  have hLess := hCondition.length_le
  have hLonger := hBody.length_le
  rw [List.length_cons] at hBound
  have hConditionPhrase : Phrase (.expr condition) (d + 1) b₁ b₂ := by
    refine h.exprInside (by simp [Node.parts]) ?_ hCondition
    simp only [Node.nesting, Branch.nesting]
    omega
  have hBodyPhrase : Phrase (.block body) d b₂ b₃ := by
    refine h.part (.block body) (by simp [Node.parts]) ?_ hBody
    simp only [Node.nesting, Branch.nesting]
    omega
  refine .bindCurrentSpan fun start => .bindDiscard ?_
  refine (hExpression.inside hConditionPhrase ?_ (by omega)).bind fun found hFound => ?_
  · rw [hBodyPhrase.block_opens]
    rfl
  refine (hBlock hBodyPhrase (by omega)).bind fun found' hFound' => .bindPast fun r hPast => ?_
  have hEnd : ∀ otherwise' : Otherwise, otherwise'.bare = otherwise.bare →
      TakesTokens d (.mark .newline :: after) (.mark .newline :: after)
        (·.bare = (Branch.mk span condition body otherwise).bare) (do
        return Branch.mk (← spanFrom start) found found' otherwise') := by
    intro otherwise' hSame
    exact .bindSpanFrom fun span => .pure (by simp [Branch.bare, hFound, hFound', hSame])
  cases otherwise with
  | nothing =>
      obtain rfl := LeavesTokens.of_nil hOtherwise
      rw [pastLines_newline, pastLines_of_ne hAfter.noLine] at hPast
      rw [hPast]
      exact .iteNeg hAfter.noElse (hEnd .nothing rfl)
  | block other =>
      obtain ⟨b₄, rfl, hOther⟩ := LeavesTokens.token hOtherwise
      have hOtherPhrase : Phrase (.block other) d b₄ (.mark .newline :: after) := by
        refine h.part (.block other) (by simp [Node.parts, Otherwise.parts]) ?_ hOther
        simp only [Node.nesting, Branch.nesting, Otherwise.nesting]
        omega
      simp only [List.length_cons] at hLonger
      rw [pastLines_of_ne (by simp), firstKind_cons] at hPast
      rw [hPast, if_pos rfl]
      refine .bindSkipNone (by simp) (.bindDiscard (.bindAt ?_))
      rw [hOtherPhrase.block_opens]
      refine .iteNeg (by simp) ?_
      refine (TakesTokens.map Otherwise.block (hBlock hOtherPhrase (by omega))
        fun b hSame => ?_).bind hEnd
      rw [Otherwise.bare, Otherwise.bare, hSame]
  | branch next =>
      obtain ⟨b₄, rfl, hNext⟩ := LeavesTokens.token hOtherwise
      have hNextPhrase : Phrase (.branch next) d b₄ (.mark .newline :: after) := by
        refine h.part (.branch next) (by simp [Node.parts, Otherwise.parts]) ?_ hNext
        simp only [Node.nesting, Branch.nesting, Otherwise.nesting]
        omega
      obtain ⟨b₅, rfl⟩ : ∃ b₅, b₄ = .mark (.keyword .ifWord) :: b₅ := by
        obtain ⟨span', condition', body', otherwise'⟩ := next
        obtain ⟨b₅, rfl, -⟩ := LeavesTokens.token hNext
        exact ⟨b₅, rfl⟩
      simp only [List.length_cons] at hLonger
      rw [pastLines_of_ne (by simp), firstKind_cons] at hPast
      rw [hPast, if_pos rfl]
      refine .bindSkipNone (by simp) (.bindDiscard (.bindAt ?_))
      rw [firstKind_cons, if_pos (by simp)]
      refine (TakesTokens.map Otherwise.branch (hBranch hNextPhrase hAfter (by simp; omega))
        fun b hSame => ?_).bind hEnd
      rw [Otherwise.bare, Otherwise.bare, hSame]

/-- Every statement that is written is read back; its first token decides which rule reads it. -/
theorem takes_statementOf (hExpression : TakesExpr 1 0 bound expression) {place : Rule Expr}
    (hPlace : TakesExpr 0 6 (bound - 1) place) {declaration : Rule Function}
    (hDeclaration : TakesFunction true bound declaration) {block : Rule Block}
    (hBlock : TakesBlock (bound - 1) block) {branch : Rule Branch}
    (hBranch : TakesBranch bound branch) :
    TakesStmt bound (statementOf expression place declaration block branch) := by
  intro s d before after h hAfter hBound
  have hInside : TakesExpr 1 0 (bound - 1) expression := by
    intro e d before after hPhrase hStrong hStops hLess
    exact hExpression hPhrase hStrong hStops (by omega)
  match s with
  | .bind span n value =>
      obtain ⟨rest, rfl, -⟩ := LeavesTokens.token h.written
      exact .bindPeek (takesTokens_bindStatement hInside h hAfter hBound)
  | .assign span target value =>
      obtain ⟨rest, rfl, -⟩ := LeavesTokens.token h.written
      exact .bindPeek (takesTokens_assignStatement hInside hPlace h hAfter hBound)
  | .function (.mk span name params body) =>
      have hNamed : name.isSome = true := h.shaped.fitsGrammar
      obtain ⟨n, rfl⟩ := Option.isSome_iff_exists.1 hNamed
      have hPhrase := h.part (.function (.mk span (some n) params body))
        (by simp [Node.parts, Stmt.parts]) (Nat.le_refl _) h.written
      obtain ⟨b₁, rfl, hName⟩ := LeavesTokens.token h.written
      obtain ⟨b₂, rfl, -⟩ := LeavesTokens.token hName
      refine .bindPeek (.bindPeekNext ?_)
      refine (hDeclaration hPhrase rfl hBound).bind fun found hFound => .bindStatementEnd ?_
      rw [pastLines_of_ne hAfter.noLine]
      exact .pure (by rw [Stmt.bare, Stmt.bare, hFound])
  | .branch (.mk span condition body otherwise) =>
      have hPhrase := h.part (.branch (.mk span condition body otherwise))
        (by simp [Node.parts, Stmt.parts]) (Nat.le_refl _) h.written
      obtain ⟨b₁, rfl, -⟩ := LeavesTokens.token h.written
      refine .bindPeek ?_
      refine (hBranch hPhrase hAfter hBound).bind fun found hFound => .bindStatementEnd ?_
      rw [pastLines_of_ne hAfter.noLine]
      exact .pure (by rw [Stmt.bare, Stmt.bare, hFound])
  | .forEach span item index iterable body =>
      obtain ⟨rest, rfl, -⟩ := LeavesTokens.token h.written
      exact .bindPeek (takesTokens_forStatement hInside hBlock h hAfter hBound)
  | .whileTrue span condition body =>
      obtain ⟨rest, rfl, -⟩ := LeavesTokens.token h.written
      exact .bindPeek (takesTokens_whileStatement hInside hBlock h hAfter hBound)
  | .leave span | .next span =>
      obtain rfl := LeavesTokens.single h.written
      exact .bindPeek (.bindAdvance fun t => takesTokens_ended hAfter fun span => rfl)
  | .result span none | .result span (some e) =>
      obtain ⟨rest, rfl, -⟩ := LeavesTokens.token h.written
      exact .bindPeek (takesTokens_resultStatement hInside h hAfter hBound)
  | .check span condition none | .check span condition (some e) =>
      obtain ⟨rest, rfl, -⟩ := LeavesTokens.token h.written
      exact .bindPeek (takesTokens_checkStatement hInside h hAfter hBound)
  | .globals span names =>
      obtain ⟨rest, rfl, -⟩ := LeavesTokens.token h.written
      exact .bindPeek (takesTokens_globalsStatement h hAfter)
  | .expr e =>
      have hStatement := takesTokens_expressionStatement hExpression h hAfter hBound
      have hPhrase := h.exprInside (by simp [Node.parts, Stmt.parts]) (Nat.lt_succ_self _) h.written
      obtain ⟨k, rest, rfl, hOpens⟩ := hPhrase.opensExpression (by simp)
      -- No word of a statement starts an expression, but the one of functions.
      have hKind := hOpens.opens
      refine .bindPeek ?_
      rw [firstKind_cons]
      split
      case h_3 =>
        refine .bindPeekNext ?_
        rw [hOpens.unnamed rfl]
        exact hStatement
      case h_12 => exact hStatement
      all_goals cases hKind

end

/-- Statements stand in front of the first tokens, as a phrase does. -/
structure StmtsPhrase (stmts : List Stmt) (depth : Nat) (before after : List TokenKind) : Prop where
  written : LeavesTokens (stmtsWritten line stmts) before after
  shaped : ∀ s ∈ stmts, (Node.stmt s).Shaped
  shallow : depth + stmtsNesting stmts ≤ maxDepth

section

variable {bound d : Nat} {before after : List TokenKind}

/-- Statements that are written are the first one, the end of its line, and the others. -/
theorem StmtsPhrase.cons {s : Stmt} {rest : List Stmt}
    (h : StmtsPhrase (s :: rest) d before after) :
    ∃ middle, Phrase (.stmt s) d before (.mark .newline :: middle) ∧
      StmtsPhrase rest d middle after := by
  obtain ⟨hWritten, hShaped, hShallow⟩ := h
  change d + max s.nesting (stmtsNesting rest) ≤ _ at hShallow
  obtain ⟨middle, hLine, hRest⟩ := LeavesTokens.append hWritten
  obtain ⟨_, hStmt, hEnd⟩ := hLine.append
  obtain rfl := hEnd.single
  refine ⟨middle, ⟨hStmt, hShaped s List.mem_cons_self, ?_⟩,
    ⟨hRest, fun other hOther => hShaped other (List.mem_cons_of_mem _ hOther), by omega⟩⟩
  change d + s.nesting ≤ _
  omega

/-- Statements start with nothing that would belong to what stands in front of them. -/
theorem StmtsPhrase.endsStatement {stmts : List Stmt} (h : StmtsPhrase stmts d before after)
    (hAfter : EndsStatement after) : EndsStatement before := by
  cases stmts with
  | nil =>
      obtain rfl := LeavesTokens.of_nil h.written
      exact hAfter
  | cons s rest =>
      obtain ⟨middle, hStmt, -⟩ := h.cons
      exact ⟨TokenKind.ne_of_opensStmt hStmt.stmt_opens rfl,
        TokenKind.ne_of_opensStmt hStmt.stmt_opens rfl⟩

variable {statement : Rule Stmt}

/-- A statement is read, and then reading goes on behind its line. -/
theorem TakesStmt.step (hStatement : TakesStmt bound statement) {s : Stmt}
    (h : Phrase (.stmt s) d before (.mark .newline :: after)) (hAfter : EndsStatement after)
    (hBound : before.length < bound) {last : List TokenKind} {good : List Stmt → Prop}
    {found : List Stmt} {next : List Stmt → Rule (List Stmt)}
    (hNext : ∀ s', s'.bare = s.bare → TakesTokens d after last good (next (found ++ [s']))) :
    TakesTokens d before last good (do
      let stmt? ← Rule.orElseNone statement
      if stmt?.isNone then Rule.resync
      Rule.skipNewlines
      next (found ++ stmt?.toList)) := by
  refine (hStatement h hAfter hBound).orElseNone.bind ?_
  rintro _ ⟨s', rfl, hSame⟩
  exact .bindSkipNone hAfter.noLine (hNext s' hSame)

theorem endsStatement_rightBrace (ks : List TokenKind) :
    EndsStatement (.mark (.symbol .rightBrace) :: ks) :=
  ⟨by simp, by simp⟩

/-- By induction over statements: those of a block are read back up to its closing brace. -/
theorem takesTokens_statements (hStatement : TakesStmt bound statement) (stmts found : List Stmt)
    (fuel : Nat) (h : StmtsPhrase stmts d before (.mark (.symbol .rightBrace) :: after))
    (hBound : before.length < bound) (hFuel : before.length < fuel) :
    TakesTokens d before (.mark (.symbol .rightBrace) :: after)
      (fun result => result.map Stmt.bare = (found ++ stmts).map Stmt.bare)
      (statements statement fuel found) := by
  induction stmts generalizing before found fuel with
  | nil =>
      obtain rfl := LeavesTokens.of_nil h.written
      cases fuel with
      | zero => cases hFuel
      | succ fuel =>
          refine .bindAt (.bindAt (.bindFull ?_))
          rw [if_pos (by simp)]
          exact .pure (by rw [List.append_nil])
  | cons s rest ih =>
      obtain ⟨middle, hStmt, hRest⟩ := h.cons
      have hLess := hStmt.written.length_le
      rw [List.length_cons] at hLess
      cases fuel with
      | zero => cases hFuel
      | succ fuel =>
          refine .bindAt (.bindAt (.bindFull (.iteNeg ?_ ?_)))
          · have hBrace : firstKind before ≠ .mark (.symbol .rightBrace) :=
              TokenKind.ne_of_opensStmt hStmt.stmt_opens rfl
            have hEnd : firstKind before ≠ .mark .endOfInput :=
              TokenKind.ne_of_opensStmt hStmt.stmt_opens rfl
            simp [hBrace, hEnd]
          · refine hStatement.step hStmt
              (hRest.endsStatement (endsStatement_rightBrace after)) hBound
              fun s' hSame => ?_
            refine (ih (found ++ [s']) fuel hRest (by omega) (by omega)).imp
              fun result hResult => ?_
            simp [hResult, hSame]

/-- A block that is written is read back, from one brace to the other. -/
theorem takesBlock_blockOf (hStatement : TakesStmt (bound - 1) statement) :
    TakesBlock bound (blockOf statement) := by
  rintro ⟨span, stmts⟩ d before after h hBound
  obtain ⟨b₁, rfl, hRest⟩ := LeavesTokens.token h.written
  obtain ⟨_, hInside, hClose⟩ := hRest.append
  obtain rfl := hClose.single
  obtain ⟨b₂, rfl, hStmts⟩ := hInside.token
  simp only [List.length_cons] at hBound
  have hPhrase : StmtsPhrase stmts d b₂ (.mark (.symbol .rightBrace) :: after) :=
    ⟨hStmts, fun s hs => h.shaped.part (List.mem_map_of_mem hs), h.shallow⟩
  refine .bindCurrentSpan fun start => .bindExpect (.bindSkip ?_)
  rw [pastLines_newline,
    pastLines_of_ne (hPhrase.endsStatement (endsStatement_rightBrace after)).noLine]
  refine .bindRounds fun n hn => ?_
  refine (takesTokens_statements hStatement stmts [] n hPhrase (by omega) hn).bind
    fun found hFound => .bindExpect (.bindSpanFrom fun span => .pure ?_)
  simp [Block.bare, hFound]

/-- By induction over statements: those of the top level are read back up to the end mark. -/
theorem takesTokens_topLevel (hStatement : TakesStmt bound statement) (stmts found : List Stmt)
    (fuel : Nat) (h : StmtsPhrase stmts d before []) (hBound : before.length < bound)
    (hFuel : before.length < fuel) :
    TakesTokens d before [] (fun result => result.map Stmt.bare = (found ++ stmts).map Stmt.bare)
      (topLevel statement fuel found) := by
  induction stmts generalizing before found fuel with
  | nil =>
      obtain rfl := LeavesTokens.of_nil h.written
      cases fuel with
      | zero => cases hFuel
      | succ fuel =>
          refine .bindAt (.bindFull ?_)
          rw [if_pos (by simp [firstKind])]
          exact .pure (by rw [List.append_nil])
  | cons s rest ih =>
      obtain ⟨middle, hStmt, hRest⟩ := h.cons
      have hLess := hStmt.written.length_le
      rw [List.length_cons] at hLess
      cases fuel with
      | zero => cases hFuel
      | succ fuel =>
          have hEnd : firstKind before ≠ .mark .endOfInput :=
            TokenKind.ne_of_opensStmt hStmt.stmt_opens rfl
          have hBrace : firstKind before ≠ .mark (.symbol .rightBrace) :=
            TokenKind.ne_of_opensStmt hStmt.stmt_opens rfl
          refine .bindAt (.bindFull (.iteNeg (by simp [hEnd]) (.bindAt (.iteNeg ?_ ?_))))
          · simp [hBrace]
          · refine hStatement.step hStmt
              (hRest.endsStatement ⟨nofun, nofun⟩) hBound fun s' hSame => ?_
            refine (ih (found ++ [s']) fuel hRest (by omega) (by omega)).imp
              fun result hResult => ?_
            simp [hResult, hSame]

end

/-- The rules of one nesting read what they are to read, if fewer tokens are left than said. -/
structure RulesComplete (fuel : Nat) : Prop where
  expression : ∀ bound, 8 * bound + 5 ≤ fuel + 8 → TakesExpr 1 0 bound (Grammar.expression fuel)
  unary : ∀ bound, 8 * bound + 4 ≤ fuel + 8 → TakesExpr 0 5 bound (Grammar.unary fuel)
  postfixes : ∀ bound, 8 * bound + 3 ≤ fuel + 8 → TakesExpr 0 6 bound (Grammar.postfixes fuel)
  primary : ∀ bound, 8 * bound + 2 ≤ fuel + 8 → TakesPrimary bound (Grammar.primary fuel)
  function : ∀ bound named, 8 * bound + 1 ≤ fuel + 8 →
    TakesFunction named bound (Grammar.function fuel named)
  block : ∀ bound, 8 * bound + 1 ≤ fuel + 8 → TakesBlock bound (Grammar.block fuel)
  branch : ∀ bound, 8 * bound + 1 ≤ fuel + 8 → TakesBranch bound (Grammar.branch fuel)
  statement : ∀ bound, 8 * bound + 6 ≤ fuel + 8 → TakesStmt bound (Grammar.statement fuel)

/-- An expression enters one level of nesting. -/
theorem TakesExpr.nested {bound : Nat} {rule : Rule Expr} (h : TakesExpr 0 0 bound rule) :
    TakesExpr 1 0 bound (Grammar.nested rule) := by
  intro e d before after hPhrase hStrong hStops hBound
  have hShallow := hPhrase.shallow
  exact .nested (by omega) (h hPhrase hStrong hStops hBound)

/-- By induction on the bound of depth: all rules read back what is written within it, as nested
parts need less of it. -/
theorem rulesComplete (fuel : Nat) : RulesComplete fuel := by
  induction fuel with
  | zero =>
      refine ⟨?_, ?_, ?_, ?_, ?_, ?_, ?_, ?_⟩
      · intro bound hBound e d before after _ _ _ hLess
        omega
      · intro bound hBound e d before after _ _ _ hLess
        omega
      · intro bound hBound e d before after _ _ _ hLess
        omega
      · intro bound hBound e d before after _ _ hLess
        omega
      · intro bound named hBound f d before after _ _ hLess
        omega
      · intro bound hBound b d before after _ hLess
        omega
      · intro bound hBound b d before after _ _ hLess
        omega
      · intro bound hBound s d before after _ _ hLess
        omega
  | succ fuel ih =>
      refine ⟨?_, ?_, ?_, ?_, ?_, ?_, ?_, ?_⟩
      · exact fun bound hBound => .nested (.operators (ih.unary bound (by omega)))
      · intro bound hBound
        exact TakesExpr.unaryOf (ih.unary (bound - 1) (by omega)) (ih.postfixes bound (by omega))
      · intro bound hBound
        exact TakesExpr.postfixesOf (ih.expression (bound - 1) (by omega))
          (ih.primary bound (by omega))
      · intro bound hBound
        exact takesPrimary_primaryOf (ih.expression (bound - 1) (by omega))
          (ih.function bound false (by omega))
      · intro bound named hBound
        exact takesFunction_functionOf (ih.block (bound - 1) (by omega)) named
      · exact fun bound hBound => takesBlock_blockOf (ih.statement (bound - 1) (by omega))
      · intro bound hBound
        exact takesTokens_branchOf (ih.expression (bound - 1) (by omega))
          (ih.block (bound - 1) (by omega)) (ih.branch (bound - 1) (by omega))
      · intro bound hBound
        exact takes_statementOf (ih.expression bound (by omega))
          (ih.postfixes (bound - 1) (by omega)) (ih.function bound true (by omega))
          (ih.block (bound - 1) (by omega)) (ih.branch bound (by omega))

/-- A script whose tokens are written is read back with enough bound of depth, which its number of
tokens gives. -/
theorem takesTokens_program {p : Program} {before : List TokenKind}
    (h : StmtsPhrase p.stmts 0 before [])
    (fuel : Nat) (hFuel : 8 * before.length + 6 ≤ fuel) :
    TakesTokens 0 before [] (·.bare = p.bare) (Grammar.program fuel) := by
  have hStatement := (rulesComplete fuel).statement (before.length + 1) (by omega)
  refine .bindSkipNone (h.endsStatement ⟨nofun, nofun⟩).noLine (.bindCurrentSpan fun start => ?_)
  refine .bindRounds fun n hn => ?_
  refine (takesTokens_topLevel hStatement p.stmts [] n h (Nat.lt_succ_self _) hn).bind
    fun found hFound => .bindSpanFrom fun span => .pure ?_
  simp [Program.bare, hFound]

/-- Every script that has the shape the grammar asks for, and in which expressions do not stand
deeper inside each other than the limit, is read from the tokens it is written with, one statement a
line: no problem is reported, and the tree is the same up to the ranges it was written in. -/
theorem parseTokens_of_written {p : Program} (hShaped : p.Shaped) (hNesting : p.nesting ≤ maxDepth)
    (file : SourceFile) {tokens : List Token}
    (hTokens : Spells (p.written line) (tokens.map (·.kind))) :
    ∃ found, (parseTokens file tokens).program = some found ∧ found.bare = p.bare ∧
      (parseTokens file tokens).report = {} := by
  have hWritten : LeavesTokens (p.written line) (tokens.map (·.kind)) [] :=
    ⟨_, hTokens, (List.append_nil _).symm⟩
  obtain ⟨_, hStmts, hEnd⟩ := hWritten.append
  obtain rfl := hEnd.single
  obtain ⟨ks, hSpells, hKinds⟩ := hStmts
  have hPhrase : StmtsPhrase p.stmts 0 ks [] :=
    ⟨⟨ks, hSpells, (List.append_nil _).symm⟩, hShaped, by rwa [Nat.zero_add]⟩
  have hLength : tokens.length = ks.length + 1 := by
    simpa using congrArg List.length hKinds
  have hStart : Reading.At 0 ks ⟨file, .ofTokens tokens, {}, 0⟩ := by
    refine ⟨?_, rfl, rfl⟩
    cases tokens with
    | nil => simp at hLength
    | cons t ts => exact hKinds
  obtain ⟨found, r, hRun, hSame, hAt⟩ :=
    takesTokens_program hPhrase (8 * tokens.length + 8) (by omega) _ hStart
  have hParsed : parseTokens file tokens = ⟨some found, {}⟩ := by
    unfold parseTokens
    dsimp only
    rw [hRun]
    dsimp only
    rw [hAt.clean]
    rfl
  rw [hParsed]
  exact ⟨found, rfl, hSame, rfl⟩

/-- A binding to the result of a call, and a branch. -/
def callScript : Program :=
  ⟨nowhere,
    [.bind nowhere ⟨"x", nowhere⟩
      (.call nowhere (.name nowhere "f")
        [(none, .binary nowhere .add (.int nowhere 1) (.name nowhere "y"))]),
    .branch (.mk nowhere (.name nowhere "x") (.mk nowhere [.leave nowhere]) .nothing)]⟩

/-- The tokens of this script. -/
def callTokens : List Token :=
  [.mark (.keyword .letWord), .name "x", .mark (.symbol .assign), .name "f",
    .mark (.symbol .leftParen), .int 1, .mark (.symbol .plus), .name "y",
    .mark (.symbol .rightParen), .mark .newline, .mark (.keyword .ifWord), .name "x",
    .mark (.symbol .leftBrace), .mark .newline, .mark (.keyword .breakWord), .mark .newline,
    .mark (.symbol .rightBrace), .mark .newline, .mark .endOfInput].map fun kind => ⟨kind, nowhere⟩

/-- The script of this example has the shape that the grammar asks of it, in all its parts. -/
theorem shaped_callScript : callScript.Shaped := by
  have hLeaf : ∀ node : Node, node.FitsGrammar → node.parts = [] → node.Shaped := by
    intro node hFits hParts
    exact .of_parts hFits (by simp [hParts])
  have hSum : (Node.expr (.binary nowhere .add (.int nowhere 1) (.name nowhere "y"))).Shaped := by
    refine .of_parts ⟨by decide, by decide⟩ ?_
    rintro part (_ | ⟨_, _ | ⟨_, ⟨⟩⟩⟩)
    · exact hLeaf _ trivial rfl
    · exact hLeaf _ trivial rfl
  rintro s (_ | ⟨_, _ | ⟨_, ⟨⟩⟩⟩)
  · refine .of_parts trivial ?_
    rintro part (_ | ⟨_, ⟨⟩⟩)
    refine .of_parts ⟨by decide, by decide, List.pairwise_singleton _ _⟩ ?_
    rintro part (_ | ⟨_, _ | ⟨_, ⟨⟩⟩⟩)
    · exact hLeaf _ trivial rfl
    · exact hSum
  · refine .of_parts trivial ?_
    rintro part (_ | ⟨_, ⟨⟩⟩)
    refine .of_parts trivial ?_
    rintro part (_ | ⟨_, _ | ⟨_, ⟨⟩⟩⟩)
    · exact hLeaf _ trivial rfl
    · refine .of_parts trivial ?_
      rintro part (_ | ⟨_, ⟨⟩⟩)
      exact hLeaf _ trivial rfl

/-- The written tokens of a script with a call are read back as the same script, with an empty
report. -/
theorem parseTokens_of_written_callScript :
    ∃ found, (parseTokens (.ofText "call" "") callTokens).program = some found ∧
      found.bare = callScript.bare ∧ (parseTokens (.ofText "call" "") callTokens).report = {} := by
  refine parseTokens_of_written shaped_callScript (by decide) _ ?_
  exact .token <| .token <| .token <| .token <| .token <| .token <| .token <| .token <|
    .noComma <| .token <| .token <| .token <| .token <| .token <| .token <| .token <| .token <|
    .token <| .token <| .token .nil

end Metagen.Script
