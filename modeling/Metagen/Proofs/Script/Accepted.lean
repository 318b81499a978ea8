import Metagen.Proofs.Script.Grammar
import Metagen.Proofs.Script.Soundness

/-! What is accepted: every tree that the grammar yields without reporting a problem is written with
the tokens that were read for it, and has the shape that the grammar asks of it. -/

namespace Metagen.Script

open Grammar

/-- The node is written with these tokens, line ends apart, and it and its parts have the shape that
the grammar asks of them. -/
structure Wrote (node : Node) (ks : List TokenKind) : Prop where
  spells : Spells (node.written []) ks
  shaped : node.Shaped
  filled : ks ≠ []

/-- The expression is written with these tokens, and holds together as strong as said. -/
structure WroteExpr (strength : Nat) (e : Expr) (ks : List TokenKind) : Prop
    extends Wrote (.expr e) ks where
  strong : strength ≤ e.strength

theorem WroteExpr.weaken {strength less : Nat} {e : Expr} {ks : List TokenKind}
    (h : WroteExpr strength e ks) (hLess : less ≤ strength) : WroteExpr less e ks :=
  ⟨h.toWrote, Nat.le_trans hLess h.strong⟩

/-- The operators of one strength, and how they are written. -/
def OperatorsFit (operators : Operators) (strength : Nat) : Prop :=
  ∀ k op, operators k = some op → op.strength = strength ∧ op.written = .token k

theorem operatorsFit_or : OperatorsFit orOperator 0 := by
  intro k op h
  unfold orOperator at h
  split at h <;> cases h
  exact ⟨rfl, rfl⟩

theorem operatorsFit_and : OperatorsFit andOperator 1 := by
  intro k op h
  unfold andOperator at h
  split at h <;> cases h
  exact ⟨rfl, rfl⟩

theorem operatorsFit_comparison : OperatorsFit comparison 2 := by
  intro k op h
  unfold comparison at h
  split at h <;> cases h <;> exact ⟨rfl, rfl⟩

theorem operatorsFit_sum : OperatorsFit sumOperator 3 := by
  intro k op h
  unfold sumOperator at h
  split at h <;> cases h <;> exact ⟨rfl, rfl⟩

theorem operatorsFit_product : OperatorsFit productOperator 4 := by
  intro k op h
  unfold productOperator at h
  split at h <;> cases h <;> exact ⟨rfl, rfl⟩

theorem BinaryOp.ne_of_written {op : BinaryOp} {k : TokenKind} (h : op.written = .token k) :
    k ≠ .mark .endOfInput ∧ k ≠ .mark .newline := by
  cases op <;> cases h <;> exact ⟨nofun, nofun⟩

/-- Joining two operands writes the operator between what they write, if it binds as strongly as the
rule asks. -/
theorem Wrote.joined {op : BinaryOp} {k : TokenKind} {left right : Expr} {ks ks' : List TokenKind}
    (hLeft : WroteExpr op.leftStrength left ks) (hRight : WroteExpr (op.strength + 1) right ks')
    (hOp : op.written = .token k) :
    WroteExpr op.strength (joined left op right) (ks ++ k :: ks') := by
  refine ⟨⟨?_, .of_parts ⟨hLeft.strong, hRight.strong⟩ ?_, ?_⟩, Nat.le_refl _⟩
  · have hWritten : (Node.expr (Grammar.joined left op right)).written [] =
        left.written [] ++ .token k :: right.written [] := by
      rw [← hOp]
      rfl
    rw [hWritten]
    exact hLeft.spells.append (.token hRight.spells)
  · rintro part (_ | ⟨_, _ | ⟨_, ⟨⟩⟩⟩)
    · exact hLeft.shaped
    · exact hRight.shaped
  · simp

namespace SoundRule

variable {bound : Nat}

/-- Standing one deeper is no matter of what was written. -/
theorem nested {Result : Type} {known : Nat → Prop} {good : Result → List TokenKind → Prop}
    {rule : Rule Result} (h : SoundRule known good rule) :
    SoundRule known good (Grammar.nested rule) := by
  refine bindLook (fun r => ⟨r, rfl⟩) fun around => .ite (fun _ => unexpected _) fun _ => ?_
  intro r hEnded hKnown
  have hInside := h { r with depth := around.depth + 1 } hEnded hKnown
  dsimp only
  cases hRun : rule { r with depth := around.depth + 1 } with
  | ok result r' =>
      rw [hRun] at hInside
      exact hInside
  | error failure r' =>
      rw [hRun] at hInside
      exact hInside

section

variable {operand : Rule Expr} {operators : Operators} {strength : Nat}

/-- Operands that are joined from the left, after some that have been joined already. -/
theorem moreOperands (hOperand : SoundRule (· ≤ bound) (WroteExpr (strength + 1)) operand)
    (hOperators : OperatorsFit operators strength) (hLeft : strength ≠ 2) (crossing : Bool)
    (fuel : Nat) (left : Expr) (before : List TokenKind) :
    SoundRule (fun m => m ≤ bound ∧ m ≤ fuel ∧ WroteExpr strength left before)
      (fun e ks => WroteExpr strength e (before ++ ks))
      (Grammar.moreOperands operators crossing operand fuel left) := by
  induction fuel generalizing left before with
  | zero => exact fail fun m hm => by omega
  | succ fuel ih =>
      refine bindPeek fun k => ?_
      cases hOperator : operators k with
      | none => exact (pure fun m hm => by simpa using hm.2.2).here
      | some op =>
          obtain ⟨hStrength, hWritten⟩ := hOperators k op hOperator
          have hRight : SoundRule (fun m => m + 1 ≤ bound ∧ m + 1 ≤ fuel + 1 ∧
              WroteExpr strength left before)
              (fun e ks => WroteExpr strength e (before ++ k :: ks)) (do
                let right ← operand
                Grammar.moreOperands operators crossing operand fuel (joined left op right)) := by
            refine (hOperand.weaken fun m hm => by omega).bind fun right ks => ?_
            refine ((ih (joined left op right) (before ++ k :: ks)).weaken fun m hm => ?_).imp ?_
            · obtain ⟨⟨hBound, hFuel, hBefore⟩, hOperand⟩ := hm
              refine ⟨by omega, by omega, ?_⟩
              subst hStrength
              refine Wrote.joined (hBefore.weaken ?_) hOperand hWritten
              rw [BinaryOp.leftStrength, if_neg hLeft]
            · intro m _ e more hMore
              simpa using hMore
          obtain ⟨hEnd, hLine⟩ := BinaryOp.ne_of_written hWritten
          refine .bindDiscard hEnd hLine ?_
          split
          · exact bindSkip hRight
          · exact hRight

/-- Operands of one strength, joined from the left, are written with the operators between them. -/
theorem leftJoined (hOperand : SoundRule (· ≤ bound) (WroteExpr (strength + 1)) operand)
    (hOperators : OperatorsFit operators strength) (hLeft : strength ≠ 2) (crossing : Bool) :
    SoundRule (· ≤ bound) (WroteExpr strength) (Grammar.leftJoined operators crossing operand) := by
  refine hOperand.bind fun left ks => bindRounds fun n => ?_
  refine (moreOperands hOperand hOperators hLeft crossing n left ks).weaken fun m hm => ?_
  exact ⟨by omega, hm.2, hm.1.2.weaken (Nat.le_succ _)⟩

/-- A comparison is written as its operands with the operator between them, and comparisons are not
joined. -/
theorem compared (hOperand : SoundRule (· ≤ bound) (WroteExpr 3) operand) :
    SoundRule (· ≤ bound) (WroteExpr 2) (Grammar.compared operand) := by
  refine hOperand.bind fun left ks => bindPeek fun k => ?_
  cases hOperator : comparison k with
  | none =>
      refine (pure fun m hm => ?_).here
      simpa using hm.2.weaken (Nat.le_succ _)
  | some op =>
      obtain ⟨hStrength, hWritten⟩ := operatorsFit_comparison k op hOperator
      obtain ⟨hEnd, hLine⟩ := BinaryOp.ne_of_written hWritten
      refine .bindDiscard hEnd hLine ?_
      refine (hOperand.weaken fun m hm => by omega).bind fun right ks' => bindPeek fun next => ?_
      split
      · exact here (bindProblem (pure fun _ h => h.elim))
      · refine (pure fun m hm => ?_).here
        obtain ⟨⟨-, hLeft⟩, hRight⟩ := hm
        rw [List.append_nil, ← hStrength]
        refine Wrote.joined ?_ (by rwa [hStrength]) hWritten
        rwa [BinaryOp.leftStrength, if_pos hStrength]

end

/-- Operands of all strengths are written as their rules nest, from the weakest operator to the
strongest. -/
theorem operators {operand : Rule Expr} (hOperand : SoundRule (· ≤ bound) (WroteExpr 5) operand) :
    SoundRule (· ≤ bound) (WroteExpr 0) (Grammar.operators operand) := by
  refine leftJoined (leftJoined (compared ?_) operatorsFit_and (by simp) true) operatorsFit_or
    (by simp) true
  exact leftJoined (leftJoined hOperand operatorsFit_product (by simp) false) operatorsFit_sum
    (by simp) false

/-- An operator in front is written in front of what its operand writes. -/
theorem wroteExpr_unary {op : UnaryOp} {k : TokenKind} {operand : Expr} {ks : List TokenKind}
    (hOperand : WroteExpr 5 operand ks) (hOp : op.written = .token k) (span : Span) :
    WroteExpr 5 (.unary span op operand) (k :: ks) := by
  refine ⟨⟨?_, .of_parts hOperand.strong ?_, List.cons_ne_nil _ _⟩, Nat.le_refl _⟩
  · change Spells (op.written :: operand.written []) _
    rw [hOp]
    exact .token hOperand.spells
  · rintro part (_ | ⟨_, ⟨⟩⟩)
    exact hOperand.shaped

/-- An operator in front is read with its operand, or else an expression with what follows it. -/
theorem unaryOf {unary postfixed : Rule Expr} (hUnary : SoundRule (· < bound) (WroteExpr 5) unary)
    (hPostfixed : SoundRule (· ≤ bound) (WroteExpr 6) postfixed) :
    SoundRule (· ≤ bound) (WroteExpr 5) (Grammar.unaryOf unary postfixed) := by
  refine bindCurrentSpan fun start => bindPeek fun k => ?_
  have hOperator : ∀ (op : UnaryOp), op.written = .token k → k ≠ .mark .endOfInput →
      k ≠ .mark .newline → SoundAt k (· ≤ bound) (WroteExpr 5) (do
        discard Rule.advance
        let operand ← unary
        return .unary (start.merge operand.span) op operand) := by
    intro op hOp hEnd hLine
    refine .bindDiscard hEnd hLine ((hUnary.weaken fun m hm => hm).bind fun operand ks => ?_)
    exact pure fun m hm => by simpa using wroteExpr_unary hm.2 hOp _
  split
  · exact hOperator .not rfl nofun nofun
  · exact hOperator .neg rfl nofun nofun
  · exact (hPostfixed.imp fun _ _ e ks h => h.weaken (by simp)).here

variable {expression : Rule Expr}

/-- A name with a colon is the name of an argument; anything else is left to its value. -/
theorem argumentName {known : Nat → Prop} :
    SoundRule known (fun name ks => Spells (Written.argumentName name) ks)
      Grammar.argumentName := by
  refine bindPeek fun k => .bindNext fun next => ?_
  split
  · refine .bindName fun span => .bindDiscard (by simp) (by simp) (bindSkip (pure fun _ _ => ?_))
    exact .token (.token .nil)
  · exact fun r hEnded hKnown _ _ => pure (fun _ _ => .nil) r hEnded hKnown

/-- Arguments of the shape that the grammar asks of them. -/
structure ArgsFit (args : List (Option Ident × Expr)) : Prop where
  shaped : ∀ arg ∈ args, (Node.expr arg.2).Shaped
  nodup : ((args.filterMap (·.1)).map (·.name)).Nodup
  positionalFirst : PositionalFirst args

/-- A positional argument fits behind others as long as none of them has a name. -/
theorem ArgsFit.positional {args : List (Option Ident × Expr)} (h : ArgsFit args) {value : Expr}
    (hValue : (Node.expr value).Shaped) (hNone : ¬ args.any (·.1.isSome) = true) :
    ArgsFit (args ++ [(none, value)]) := by
  refine ⟨?_, by simpa using h.nodup, ?_⟩
  · intro arg hArg
    rcases List.mem_append.1 hArg with hOld | hNew
    · exact h.shaped arg hOld
    · rw [List.mem_singleton.1 hNew]
      exact hValue
  · refine List.pairwise_append.2 ⟨h.positionalFirst, List.pairwise_singleton _ _, ?_⟩
    intro arg hArg other _ hSome
    exact (hNone (List.any_eq_true.2 ⟨arg, hArg, hSome⟩)).elim

/-- A named argument fits behind others as long as none of them has its name. -/
theorem ArgsFit.named {args : List (Option Ident × Expr)} (h : ArgsFit args) {name : Ident}
    {value : Expr} (hValue : (Node.expr value).Shaped)
    (hNew : ¬ args.any (·.1.any (·.name == name.name)) = true) :
    ArgsFit (args ++ [(some name, value)]) := by
  refine ⟨?_, ?_, ?_⟩
  · intro arg hArg
    rcases List.mem_append.1 hArg with hOld | hNew
    · exact h.shaped arg hOld
    · rw [List.mem_singleton.1 hNew]
      exact hValue
  · rw [List.filterMap_append, List.map_append, List.nodup_append]
    refine ⟨h.nodup, by simp, ?_⟩
    rintro other hOther _ hMem rfl
    obtain ⟨n, hName, rfl⟩ := List.mem_map.1 hOther
    obtain ⟨arg, hArg, hSome⟩ := List.mem_filterMap.1 hName
    refine hNew (List.any_eq_true.2 ⟨arg, hArg, ?_⟩)
    rw [hSome]
    simpa using hMem
  · refine List.pairwise_append.2 ⟨h.positionalFirst, List.pairwise_singleton _ _, ?_⟩
    intro arg _ other hOther _
    rw [List.mem_singleton.1 hOther]
    rfl

/-- An argument is its name, if it has one, and its value; it fits behind those read before or is
reported. -/
theorem argument (hExpression : SoundRule (· < bound) (WroteExpr 0) expression)
    (before : List (Option Ident × Expr)) :
    SoundRule (fun m => m < bound ∧ ArgsFit before)
      (fun arg ks => Spells (Written.argumentName arg.1 ++ arg.2.written []) ks ∧
        ArgsFit (before ++ [arg])) (Grammar.argument expression before) := by
  refine argumentName.bind fun name ks => ?_
  refine (hExpression.weaken fun m hm => by omega).bind fun value ks' => ?_
  cases name with
  | none =>
      refine problemIf (pure fun m hm => ?_)
      obtain ⟨⟨⟨⟨-, hBefore⟩, hName⟩, hValue⟩, hFirst⟩ := hm
      refine ⟨?_, hBefore.positional hValue.shaped hFirst⟩
      rw [List.append_nil]
      exact hName.append hValue.spells
  | some n =>
      refine problemIf (pure fun m hm => ?_)
      obtain ⟨⟨⟨⟨-, hBefore⟩, hName⟩, hValue⟩, hNew⟩ := hm
      refine ⟨?_, hBefore.named hValue.shaped hNew⟩
      rw [List.append_nil]
      exact hName.append hValue.spells

/-- Arguments are read up to the closing parenthesis, with commas between them. -/
theorem arguments (hExpression : SoundRule (· < bound) (WroteExpr 0) expression) :
    SoundRule (· < bound)
      (fun args ks => ArgsFit args ∧ Spells (argsWritten [] args ++ [.symbol .rightParen]) ks)
      (Rule.separatedUpTo (.symbol .rightParen) (Grammar.argument expression)) := by
  refine (separatedUpTo (by simp) (by simp) ⟨by simp, by simp, .nil⟩ (argument hExpression)).imp ?_
  rintro m - args ks ⟨hFits, hSpells⟩
  rw [argsWritten_eq]
  exact ⟨hFits, hSpells⟩

/-- By induction on the bound of rounds: fields, calls and indexes that follow an expression are
written behind it. -/
theorem morePostfixes (hExpression : SoundRule (· < bound) (WroteExpr 0) expression) (fuel : Nat)
    (object : Expr) (before : List TokenKind) :
    SoundRule (fun m => m ≤ bound ∧ m ≤ fuel ∧ WroteExpr 6 object before)
      (fun e ks => WroteExpr 6 e (before ++ ks))
      (Grammar.morePostfixes expression fuel object) := by
  induction fuel generalizing object before with
  | zero => exact fail fun m hm => by omega
  | succ fuel ih =>
      refine bindPeek fun k => ?_
      split
      next =>
        refine .bindDiscard (by simp) (by simp) (bindKey fun field k hKey => ?_)
        refine ((ih _ (before ++ [.mark (.symbol .dot), k])).weaken fun m hm => ?_).imp ?_
        · obtain ⟨hBound, hFuel, hObject⟩ := hm
          refine ⟨by omega, by omega, ⟨?_, .of_parts hObject.strong ?_, by simp⟩, Nat.le_refl _⟩
          · exact hObject.spells.append (.token (.key hKey .nil))
          · rintro part (_ | ⟨_, ⟨⟩⟩)
            exact hObject.shaped
        · intro m _ e more hMore
          simpa using hMore
      next =>
        refine .bindDiscard (by simp) (by simp) ?_
        refine ((arguments hExpression).weaken fun m hm => by omega).bind fun args ks => ?_
        refine bindPreviousSpan fun span => ?_
        refine ((ih _ (before ++ .mark (.symbol .leftParen) :: ks)).weaken fun m hm => ?_).imp ?_
        · obtain ⟨⟨hBound, hFuel, hObject⟩, hArgs, hSpells⟩ := hm
          refine ⟨by omega, by omega, ⟨?_, .of_parts ?_ ?_, by simp⟩, Nat.le_refl _⟩
          · exact hObject.spells.append (.token hSpells)
          · exact ⟨hObject.strong, hArgs.nodup, hArgs.positionalFirst⟩
          · rintro part (_ | ⟨_, hPart⟩)
            · exact hObject.shaped
            · obtain ⟨arg, hArg, rfl⟩ := List.mem_map.1 hPart
              exact hArgs.shaped arg hArg
        · intro m _ e more hMore
          simpa using hMore
      next =>
        refine .bindDiscard (by simp) (by simp) (bindSkip ?_)
        refine (hExpression.weaken fun m hm => by omega).bind fun index ks => bindSkip ?_
        refine bindExpect (by simp) (by simp) (bindPreviousSpan fun span => ?_)
        refine ((ih _ (before ++ .mark (.symbol .leftBracket) ::
          (ks ++ [.mark (.symbol .rightBracket)]))).weaken fun m hm => ?_).imp ?_
        · obtain ⟨⟨hBound, hFuel, hObject⟩, hIndex⟩ := hm
          refine ⟨by omega, by omega, ⟨?_, .of_parts hObject.strong ?_, by simp⟩, Nat.le_refl _⟩
          · exact hObject.spells.append (.token (hIndex.spells.append (.token .nil)))
          · rintro part (_ | ⟨_, _ | ⟨_, ⟨⟩⟩⟩)
            · exact hObject.shaped
            · exact hIndex.shaped
        · intro m _ e more hMore
          simpa using hMore
      next => exact (pure fun m hm => by simpa using hm.2.2).here

/-- An expression with all that follows it is written as the expression and behind it what
follows. -/
theorem postfixesOf {primary : Rule Expr}
    (hExpression : SoundRule (· < bound) (WroteExpr 0) expression)
    (hPrimary : SoundRule (· ≤ bound) (WroteExpr 6) primary) :
    SoundRule (· ≤ bound) (WroteExpr 6) (Grammar.postfixesOf expression primary) := by
  refine hPrimary.bind fun object ks => bindRounds fun n => ?_
  exact (morePostfixes hExpression n object ks).weaken fun m hm => ⟨by omega, hm.2, hm.1.2⟩

theorem bindSpanFrom {Result : Type} {known : Nat → Prop} {good : Result → List TokenKind → Prop}
    {start : Span} {second : Span → Rule Result} (h : ∀ span, SoundRule known good (second span)) :
    SoundRule known good (Grammar.spanFrom start >>= second) := bindPreviousSpan fun _ => h _

/-- Parts of an interpolated string up to a text that has been read, which ends at a hole. -/
structure HolesFit (parts : List (Part Expr)) : Prop where
  shaped : ∀ e ∈ parts.filterMap Part.hole?, (Node.expr e).Shaped
  filled : ∀ value, .text value ∈ parts → value ≠ ""
  apart : parts.IsChain fun first second => first.hole?.isSome = true ∨ second.hole?.isSome = true

theorem holesFit_textPart (value : String) : HolesFit (textPart value) := by
  unfold textPart
  split
  · exact ⟨by simp, by simp, .nil⟩
  · next hFilled => exact ⟨by simp [Part.hole?], by simpa using hFilled, .singleton _⟩

/-- A hole comes with the text behind it, if that text is not empty. -/
theorem HolesFit.hole {parts : List (Part Expr)} (h : HolesFit parts) {e : Expr}
    (he : (Node.expr e).Shaped) (value : String) :
    HolesFit (parts ++ .hole e :: textPart value) := by
  have hText := holesFit_textPart value
  refine ⟨?_, ?_, ?_⟩
  · intro other hOther
    rw [List.filterMap_append, List.mem_append] at hOther
    rcases hOther with hOld | hNew
    · exact h.shaped other hOld
    · rcases List.mem_cons.1 hNew with rfl | hLast
      · exact he
      · exact hText.shaped other hLast
  · intro other hOther
    rcases List.mem_append.1 hOther with hOld | hNew
    · exact h.filled other hOld
    · rcases List.mem_cons.1 hNew with hHole | hLast
      · cases hHole
      · exact hText.filled other hLast
  · refine List.isChain_append.2 ⟨h.apart, ?_, ?_⟩
    · unfold textPart
      split
      · exact .singleton _
      · exact List.isChain_cons_cons.2 ⟨.inl rfl, .singleton _⟩
    · rintro first _ _ ⟨⟩
      exact .inr rfl

/-- What stands behind a hole, when the next part is another hole. -/
theorem written_textPart_hole (eol : List Written) (value : String) (e : Expr)
    (rest : List (Part Expr)) :
    Written.textAfter (textPart value ++ .hole e :: rest) = .token (.textPart value) ∧
      holesWritten eol (textPart value ++ .hole e :: rest) =
        holesWritten eol (.hole e :: rest) := by
  unfold textPart
  split
  next hEmpty =>
    rw [String.isEmpty_iff.1 hEmpty]
    exact ⟨rfl, rfl⟩
  next => exact ⟨rfl, rfl⟩

/-- What stands behind the last hole. -/
theorem written_textPart_end (eol : List Written) (value : String) :
    Written.textAfter (textPart value) = .token (.textEnd value) ∧
      holesWritten eol (textPart value) = [] := by
  unfold textPart
  split
  next hEmpty =>
    rw [String.isEmpty_iff.1 hEmpty]
    exact ⟨rfl, rfl⟩
  next => exact ⟨rfl, rfl⟩

/-- The text in front of a hole is the one that was read before it, even if it is empty. -/
theorem textBefore_textPart (value : String) (e : Expr) (rest : List (Part Expr)) :
    Written.textBefore (textPart value ++ .hole e :: rest) = .token (.textStart value) := by
  unfold textPart
  split
  next hEmpty =>
    rw [String.isEmpty_iff.1 hEmpty]
    rfl
  next => rfl

/-- By induction on the bound of rounds: the holes of a string are written with the texts between
them. -/
theorem holes (hExpression : SoundRule (· < bound) (WroteExpr 0) expression) (fuel : Nat)
    (before : List (Part Expr)) :
    SoundRule (fun m => m < bound ∧ m ≤ fuel ∧ HolesFit before)
      (fun parts ks => HolesFit parts ∧ ∃ e more, parts = before ++ .hole e :: more ∧
        Spells (holesWritten [] (.hole e :: more)) ks) (Grammar.holes expression fuel before) := by
  induction fuel generalizing before with
  | zero => exact fail fun m hm => by omega
  | succ fuel ih =>
      refine bindExpect (by simp) (by simp) (bindSkip ?_)
      refine (hExpression.weaken fun m hm => by omega).bind fun inner ks => bindSkip ?_
      refine bindExpect (by simp) (by simp) (bindPeek fun k => ?_)
      split
      next value =>
        refine .bindDiscard (by simp) (by simp) ?_
        refine ((ih (before ++ .hole inner :: textPart value)).weaken fun m hm => ?_).imp ?_
        · obtain ⟨⟨hBound, hFuel, hBefore⟩, hInner⟩ := hm
          exact ⟨by omega, by omega, hBefore.hole hInner.shaped value⟩
        · rintro m ⟨-, hInner⟩ parts later ⟨hFits, e, more, rfl, hMore⟩
          refine ⟨hFits, inner, textPart value ++ .hole e :: more, by simp, ?_⟩
          obtain ⟨hText, hHoles⟩ := written_textPart_hole [] value e more
          rw [holesWritten, hText, hHoles]
          exact .token (hInner.spells.append (.token (.token hMore)))
      next value =>
        refine .bindDiscard (by simp) (by simp) (pure fun m hm => ?_)
        obtain ⟨⟨hBound, hFuel, hBefore⟩, hInner⟩ := hm
        refine ⟨hBefore.hole hInner.shaped value, inner, textPart value, rfl, ?_⟩
        obtain ⟨hText, hHoles⟩ := written_textPart_end [] value
        rw [holesWritten, hText, hHoles]
        exact .token (hInner.spells.append (.token (.token .nil)))
      next => exact here (bindProblem (fail fun m h => h))

/-- An interpolated string is written as its first text, its holes, and the texts between and behind
them. -/
theorem interpolation (hExpression : SoundRule (· < bound) (WroteExpr 0) expression)
    (first : String)
    (start : Span) :
    SoundRule (· < bound) (fun e ks => WroteExpr 6 e (.textStart first :: ks))
      (Grammar.interpolation expression first start) := by
  refine bindRounds fun n => ?_
  refine ((holes hExpression n (textPart first)).weaken fun m hm => ?_).bind fun parts ks => ?_
  · exact ⟨hm.1, hm.2, holesFit_textPart first⟩
  · refine bindSpanFrom fun span => pure fun m hm => ?_
    obtain ⟨-, hFits, e, more, rfl, hMore⟩ := hm
    rw [List.append_nil]
    refine ⟨⟨?_, .of_parts ⟨⟨e, by simp⟩, hFits.filled, hFits.apart⟩ ?_, by simp⟩, Nat.le_refl _⟩
    · change Spells (Written.textBefore _ :: holesWritten [] _) _
      rw [textBefore_textPart, (written_textPart_hole [] first e more).2]
      exact .token hMore
    · intro part hPart
      obtain ⟨inner, hInner, rfl⟩ := List.mem_map.1 hPart
      exact hFits.shaped inner hInner

/-- Fields of a record of the shape that the grammar asks of them. -/
structure FieldsFit (fields : List (Ident × Expr)) : Prop where
  shaped : ∀ field ∈ fields, (Node.expr field.2).Shaped
  nodup : (fields.map (·.1.name)).Nodup

/-- A field of a record is a key and a value, and the key is new or reported. -/
theorem recordField (hExpression : SoundRule (· < bound) (WroteExpr 0) expression)
    (before : List (Ident × Expr)) :
    SoundRule (fun m => m < bound ∧ FieldsFit before)
      (fun field ks => Spells (.key field.1.name :: .symbol .colon :: field.2.written []) ks ∧
        FieldsFit (before ++ [field])) (Grammar.recordField expression before) := by
  refine bindKey fun key k hKey => problemIf ?_
  refine bindExpect (by simp) (by simp) (bindSkip ?_)
  refine (hExpression.weaken fun m hm => by omega).bind fun value ks => pure fun m hm => ?_
  obtain ⟨⟨⟨-, hBefore⟩, hNew⟩, hValue⟩ := hm
  rw [List.append_nil]
  refine ⟨.key hKey (.token hValue.spells), ?_, ?_⟩
  · intro field hField
    rcases List.mem_append.1 hField with hOld | hLast
    · exact hBefore.shaped field hOld
    · rw [List.mem_singleton.1 hLast]
      exact hValue.shaped
  · rw [List.map_append, List.nodup_append]
    refine ⟨hBefore.nodup, by simp, ?_⟩
    rintro other hOther _ hMem rfl
    obtain ⟨field, hField, rfl⟩ := List.mem_map.1 hOther
    refine hNew (List.any_eq_true.2 ⟨field, hField, ?_⟩)
    simpa using hMem

/-- An expression of one token. -/
theorem wroteExpr_single {e : Expr} {k : TokenKind} (hWritten : e.written [] = [.token k])
    (hFits : (Node.expr e).FitsGrammar) (hParts : e.parts = []) (hStrong : 6 ≤ e.strength) :
    WroteExpr 6 e [k] := by
  refine ⟨⟨?_, .of_parts hFits ?_, List.cons_ne_nil _ _⟩, hStrong⟩
  · change Spells (e.written []) _
    rw [hWritten]
    exact .token .nil
  · change ∀ part ∈ e.parts, part.Shaped
    rw [hParts]
    simp

/-- A list is written as its items between brackets. -/
theorem listed (hExpression : SoundRule (· < bound) (WroteExpr 0) expression) (start : Span) :
    SoundRule (· < bound) (fun e ks => WroteExpr 6 e (.mark (.symbol .leftBracket) :: ks)) (do
      let items ← Rule.separatedUpTo (.symbol .rightBracket) fun _ => expression
      return .list (← Grammar.spanFrom start) items) := by
  have hItem : ∀ before : List Expr,
      SoundRule (fun m => m < bound ∧ ∀ e ∈ before, (Node.expr e).Shaped)
        (fun e ks => Spells (e.written []) ks ∧ ∀ e' ∈ before ++ [e], (Node.expr e').Shaped)
        expression := by
    intro before
    refine (hExpression.weaken fun m hm => hm.1).imp fun m hm e ks he => ⟨he.spells, ?_⟩
    intro e' he'
    rcases List.mem_append.1 he' with hOld | hNew
    · exact hm.2 e' hOld
    · rw [List.mem_singleton.1 hNew]
      exact he.shaped
  refine (separatedUpTo (by simp) (by simp) (by simp) hItem).bind fun items ks => ?_
  refine bindSpanFrom fun span => pure fun m hm => ?_
  obtain ⟨-, hShaped, hSpells⟩ := hm
  rw [List.append_nil]
  refine ⟨⟨?_, .of_parts trivial ?_, by simp⟩, Nat.le_refl _⟩
  · rw [← itemsWritten_eq] at hSpells
    exact .token hSpells
  · intro part hPart
    obtain ⟨e, he, rfl⟩ := List.mem_map.1 hPart
    exact hShaped e he

/-- A record is written as its fields between braces. -/
theorem recorded (hExpression : SoundRule (· < bound) (WroteExpr 0) expression) (start : Span) :
    SoundRule (· < bound) (fun e ks => WroteExpr 6 e (.mark (.symbol .leftBrace) :: ks)) (do
      let fields ← Rule.separatedUpTo (.symbol .rightBrace) (Grammar.recordField expression)
      return .record (← Grammar.spanFrom start) fields) := by
  refine (separatedUpTo (by simp) (by simp) ⟨by simp, by simp⟩
    (recordField hExpression)).bind fun fields ks => ?_
  refine bindSpanFrom fun span => pure fun m hm => ?_
  obtain ⟨-, hFits, hSpells⟩ := hm
  rw [List.append_nil]
  refine ⟨⟨?_, .of_parts hFits.nodup ?_, by simp⟩, Nat.le_refl _⟩
  · rw [← fieldsWritten_eq] at hSpells
    exact .token hSpells
  · intro part hPart
    obtain ⟨field, hField, rfl⟩ := List.mem_map.1 hPart
    exact hFits.shaped field hField

/-- An expression in parentheses is written between them; line ends inside are no part of it. -/
theorem parenthesized (hExpression : SoundRule (· < bound) (WroteExpr 0) expression)
    (start : Span) :
    SoundRule (· < bound) (fun e ks => WroteExpr 6 e (.mark (.symbol .leftParen) :: ks)) (do
      Rule.skipNewlines
      let inner ← expression
      Rule.skipNewlines
      Rule.expect (.symbol .rightParen)
      return .paren (← Grammar.spanFrom start) inner) := by
  refine bindSkip (hExpression.bind fun inner ks => bindSkip ?_)
  refine bindExpect (by simp) (by simp) (bindSpanFrom fun span => pure fun m hm => ?_)
  refine ⟨⟨.token (hm.2.spells.append (.token .nil)), .of_parts trivial ?_, by simp⟩, Nat.le_refl _⟩
  rintro part (_ | ⟨_, ⟨⟩⟩)
  exact hm.2.shaped

/-- A function with or without a name. -/
structure WroteFunction (named : Bool) (f : Function) (ks : List TokenKind) : Prop
    extends Wrote (.function f) ks where
  name : f.name.isSome = named

/-- A literal, a name, a function, or an expression in brackets: what was read is what is
written. -/
theorem primaryOf {lambda : Rule Function}
    (hExpression : SoundRule (· < bound) (WroteExpr 0) expression)
    (hLambda : SoundAt (.mark (.keyword .fnWord)) (· ≤ bound) (WroteFunction false) lambda) :
    SoundRule (· ≤ bound) (WroteExpr 6) (Grammar.primaryOf expression lambda) := by
  refine bindCurrentSpan fun start => bindPeek fun k => ?_
  have hSingle : ∀ e : Expr, e.written [] = [.token k] → (Node.expr e).FitsGrammar → e.parts = [] →
      6 ≤ e.strength → k ≠ .mark .endOfInput → k ≠ .mark .newline →
      SoundAt k (· ≤ bound) (WroteExpr 6) (do
        discard Rule.advance
        return e) := by
    intro e hWritten hFits hParts hStrong hEnd hLine
    exact .bindDiscard hEnd hLine
      (pure fun m hm => wroteExpr_single hWritten hFits hParts hStrong)
  have hLess : ∀ m, m + 1 ≤ bound → m < bound := fun m hm => hm
  cases k with
  | int _ | float _ | text _ | name _ =>
      exact hSingle _ rfl trivial rfl (Nat.le_refl _) nofun nofun
  | textStart first =>
      exact .bindDiscard nofun nofun ((interpolation hExpression first start).weaken hLess)
  | textPart _ | textEnd _ => exact here (unexpected _)
  | mark mark =>
      cases mark with
      | keyword word =>
          cases word with
          | trueWord | falseWord | nilWord =>
              exact hSingle _ rfl trivial rfl (Nat.le_refl _) nofun nofun
          | fnWord =>
              refine .bind hLambda fun f ks => pure fun m hm => ?_
              rw [List.append_nil]
              obtain ⟨-, hFunction⟩ := hm
              refine ⟨⟨hFunction.spells, .of_parts (Option.isNone_iff_eq_none.1 ?_) ?_,
                hFunction.filled⟩, Nat.le_refl _⟩
              · have hName := hFunction.name
                simpa using hName
              · rintro part (_ | ⟨_, ⟨⟩⟩)
                exact hFunction.shaped
          | _ => exact here (unexpected _)
      | symbol symbol =>
          cases symbol with
          | leftBracket =>
              exact .bindDiscard nofun nofun ((listed hExpression start).weaken hLess)
          | leftBrace =>
              exact .bindDiscard nofun nofun ((recorded hExpression start).weaken hLess)
          | leftParen =>
              exact .bindDiscard nofun nofun ((parenthesized hExpression start).weaken hLess)
          | _ => exact here (unexpected _)
      | _ => exact here (unexpected _)

def NamesApart (names : List Ident) : Prop := (names.map (·.name)).Nodup

/-- A parameter is a name that is listed for the first time, or it is reported. -/
theorem parameter (before : List Ident) :
    SoundRule (fun m => m < bound ∧ NamesApart before)
      (fun name ks => Spells [.name name] ks ∧ NamesApart (before ++ [name]))
      (Grammar.parameter before) := by
  refine bindName fun name => problemIf (pure fun m hm => ⟨.token .nil, ?_⟩)
  obtain ⟨⟨-, hBefore⟩, hNew⟩ := hm
  rw [NamesApart, List.map_append, List.nodup_append]
  refine ⟨hBefore, by simp, ?_⟩
  rintro other hOther _ hMem rfl
  obtain ⟨n, hn, rfl⟩ := List.mem_map.1 hOther
  refine hNew (List.any_eq_true.2 ⟨n, hn, ?_⟩)
  simpa using hMem

/-- Parameters are written between commas up to the closing parenthesis, and no name is listed
twice. -/
theorem parameters :
    SoundRule (· < bound)
      (fun params ks => NamesApart params ∧
        Spells (Written.params params ++ [.symbol .rightParen]) ks)
      (Rule.separatedUpTo (.symbol .rightParen) Grammar.parameter) :=
  separatedUpTo (by simp) (by simp) List.nodup_nil parameter

/-- A function is its name, if it has one, its parameters in parentheses, and its block. -/
theorem functionOf {block : Rule Block}
    (hBlock : SoundRule (· < bound) (fun b ks => Wrote (.block b) ks) block) (named : Bool) :
    SoundAt (.mark (.keyword .fnWord)) (· ≤ bound) (WroteFunction named)
      (Grammar.functionOf block named) := by
  refine .bindCurrentSpan fun start => .bindDiscard nofun nofun ?_
  have hRest : ∀ (name : Option Ident) (ks : List TokenKind), name.isSome = named →
      Spells (Written.functionName name) ks → SoundRule (· < bound)
        (fun f more => WroteFunction named f (.mark (.keyword .fnWord) :: (ks ++ more))) (do
          Rule.expect (.symbol .leftParen)
          let params ← Rule.separatedUpTo (.symbol .rightParen) Grammar.parameter
          let body ← block
          return .mk (← Grammar.spanFrom start) name params body) := by
    intro name ks hNamed hName
    refine bindExpect (by simp) (by simp) ?_
    refine (parameters.weaken fun m hm => (by omega : m < bound)).bind fun params ks' => ?_
    refine (hBlock.weaken fun m hm => by omega).bind fun body ks'' => ?_
    refine bindSpanFrom fun span => pure fun m hm => ?_
    obtain ⟨⟨-, hNodup, hParams⟩, hBody⟩ := hm
    rw [List.append_nil]
    refine ⟨⟨?_, .of_parts hNodup ?_, by simp⟩, hNamed⟩
    · have hTail := hParams.append hBody.spells
      rw [List.append_assoc] at hTail
      exact .token (hName.append (.token hTail))
    · rintro part (_ | ⟨_, ⟨⟩⟩)
      exact hBody.shaped
  dsimp only
  split
  next hNamed =>
    rw [map_eq_pure_bind, bind_assoc]
    refine bindName fun name => ?_
    refine (hRest (some name) [.name name.name] hNamed.symm (.token .nil)).weaken fun m hm => ?_
    omega
  next hNamed =>
    exact hRest none [] (by simpa using hNamed) .nil

abbrev WroteBlock (b : Block) (ks : List TokenKind) : Prop := Wrote (.block b) ks

abbrev WroteBranch (b : Branch) (ks : List TokenKind) : Prop := Wrote (.branch b) ks

abbrev WroteStmt (s : Stmt) (ks : List TokenKind) : Prop := Wrote (.stmt s) ks

/-- Statements of the right shape, written with these tokens. -/
structure WroteStmts (stmts : List Stmt) (ks : List TokenKind) : Prop where
  spells : Spells (stmtsWritten [] stmts) ks
  shaped : ∀ s ∈ stmts, (Node.stmt s).Shaped

theorem WroteStmts.cons {s : Stmt} {stmts : List Stmt} {ks ks' : List TokenKind}
    (h' : WroteStmts stmts ks') (h : WroteStmt s ks) : WroteStmts (s :: stmts) (ks ++ ks') := by
  refine ⟨?_, List.forall_mem_cons.2 ⟨h.shaped, h'.shaped⟩⟩
  rw [stmtsWritten, List.append_nil]
  exact h.spells.append h'.spells

/-- After a statement, reading goes on behind it; after a problem, where the next one may start. -/
theorem bindStatement {Result : Type} {good : Result → List TokenKind → Prop}
    {known : Nat → Prop} {statement : Rule Stmt} {next : Option Stmt → Rule Result}
    (hStatement : SoundRule known WroteStmt statement)
    (hNext : ∀ s ks, SoundRule (fun m => known (ks.length + m) ∧ WroteStmt s ks)
      (fun result more => good result (ks ++ more)) (next (some s)))
    (hProblem : SoundRule (fun _ => False) good (next none)) :
    SoundRule known good (do
      let stmt? ← Rule.orElseNone statement
      if stmt?.isNone then Rule.resync
      Rule.skipNewlines
      next stmt?) := by
  refine (orElseNone hStatement).bind fun stmt? ks => ?_
  cases stmt? with
  | some s =>
      refine bindSkip ((hNext s ks).weaken ?_)
      rintro m ⟨hKnown, _, ⟨⟩, hStmt⟩
      exact ⟨hKnown, hStmt⟩
  | none =>
      have hNever : ∀ m, ¬ (known (ks.length + m) ∧
          ∃ result, (none : Option Stmt) = some result ∧ WroteStmt result ks) := by
        rintro m ⟨-, _, ⟨⟩, -⟩
      refine bindResync hNever (bindSkip ?_)
      refine (hProblem.weaken hNever).imp fun m hm => (hNever m hm).elim

/-- By induction on the bound of rounds: statements are written one after the other, each with the
end of its line. -/
theorem statements {statement : Rule Stmt} (hStatement : SoundRule (· < bound) WroteStmt statement)
    (fuel : Nat) (before : List Stmt) :
    SoundRule (· < bound) (fun stmts ks => ∃ more, stmts = before ++ more ∧ WroteStmts more ks)
      (Grammar.statements statement fuel before) := by
  induction fuel generalizing before with
  | zero => exact pure fun m hm => ⟨[], (List.append_nil before).symm, .nil, by simp⟩
  | succ fuel ih =>
      refine bindAt fun _ => bindAt fun _ => bindLook (fun _ => ⟨_, rfl⟩) fun _ => ?_
      refine .ite (fun _ => pure fun m hm => ?_) fun _ => ?_
      · exact ⟨[], (List.append_nil before).symm, .nil, by simp⟩
      · refine bindStatement hStatement (fun s ks => ?_) ?_
        · refine ((ih (before ++ [s])).weaken fun m hm => by omega).imp ?_
          rintro m ⟨-, hStmt⟩ _ ks' ⟨more, rfl, hMore⟩
          exact ⟨s :: more, List.append_assoc _ _ _, hMore.cons hStmt⟩
        · refine ((ih _).weaken fun m hm => hm.elim).imp fun m hm => hm.elim

/-- A block is written as its statements between braces. -/
theorem blockOf {statement : Rule Stmt} (hStatement : SoundRule (· < bound) WroteStmt statement) :
    SoundRule (· ≤ bound) WroteBlock (Grammar.blockOf statement) := by
  refine bindCurrentSpan fun start => bindExpect (by simp) (by simp) (bindSkip ?_)
  refine bindRounds fun n => ?_
  refine ((statements hStatement n []).weaken fun m hm => hm.1).bind fun stmts ks => ?_
  refine bindExpect (by simp) (by simp) (bindSpanFrom fun span => pure fun m hm => ?_)
  obtain ⟨-, more, rfl, hMore⟩ := hm
  refine ⟨.token (hMore.spells.append (.token .nil)), .of_parts trivial ?_, by simp⟩
  intro part hPart
  obtain ⟨s, hs, rfl⟩ := List.mem_map.1 hPart
  exact hMore.shaped s hs

/-- A rule that goes another way at a mark on a later line. -/
theorem crossing {Result : Type} {known : Nat → Prop} {good : Result → List TokenKind → Prop}
    {mark : Mark} (hMark : mark ≠ .endOfInput) (hLine : mark ≠ .newline) {rest other : Rule Result}
    (hRest : SoundRule (fun m => known (m + 1)) (fun result ks => good result (.mark mark :: ks))
      rest)
    (hOther : SoundRule known good other) :
    SoundRule known good (do
      if (← get).cursor.pastNewlines = .mark mark then do
        Rule.skipNewlines
        discard Rule.advance
        rest
      else other) := by
  intro r hEnded hKnown
  by_cases hKind : r.cursor.pastNewlines = .mark mark
  · have hRun : (do
        if (← get).cursor.pastNewlines = .mark mark then do
          Rule.skipNewlines
          discard Rule.advance
          rest
        else other : Rule Result) r =
        (discard Rule.advance >>= fun _ => rest) { r with cursor := r.cursor.skipNewlines } := by
      change (if r.cursor.pastNewlines = .mark mark then _ else _ : Rule Result) r = _
      rw [if_pos hKind]
      rfl
    rw [hRun]
    obtain ⟨hEnded', hLeft⟩ := hEnded.skipNewlines
    rw [hLeft] at hKnown
    have hMarkKind : (TokenKind.mark mark) ≠ .mark .endOfInput := by simpa using hMark
    have hLineKind : (TokenKind.mark mark) ≠ .mark .newline := by simpa using hLine
    exact .before { r with cursor := r.cursor.skipNewlines } [] id hLeft
      (SoundAt.bindDiscard hMarkKind hLineKind hRest _ hEnded' hKnown hKind)
  · have hRun : (do
        if (← get).cursor.pastNewlines = .mark mark then do
          Rule.skipNewlines
          discard Rule.advance
          rest
        else other : Rule Result) r = other r := by
      change (if r.cursor.pastNewlines = .mark mark then _ else _ : Rule Result) r = _
      rw [if_neg hKind]
    rw [hRun]
    exact hOther r hEnded hKnown

/-- What follows otherwise, written with these tokens. -/
structure WroteOtherwise (otherwise : Otherwise) (ks : List TokenKind) : Prop where
  spells : Spells (otherwise.written []) ks
  shaped : ∀ part ∈ otherwise.parts, part.Shaped

/-- A branch is a condition, a block and what follows otherwise: nothing, a block, or one more
branch. -/
theorem branchOf {block : Rule Block} {branch : Rule Branch}
    (hExpression : SoundRule (· < bound) (WroteExpr 0) expression)
    (hBlock : SoundRule (· < bound) WroteBlock block)
    (hBranch : SoundAt (.mark (.keyword .ifWord)) (· < bound) WroteBranch branch) :
    SoundAt (.mark (.keyword .ifWord)) (· ≤ bound) WroteBranch
      (Grammar.branchOf expression block branch) := by
  refine .bindCurrentSpan fun start => .bindDiscard nofun nofun ?_
  refine (hExpression.weaken fun m hm => hm).bind fun condition ks => ?_
  refine (hBlock.weaken fun m hm => by omega).bind fun body ks' => ?_
  have hRest : ∀ (otherwise : Otherwise) (last : List TokenKind),
      SoundRule (fun _ => (WroteExpr 0 condition ks ∧ WroteBlock body ks') ∧
          WroteOtherwise otherwise last)
        (fun b more => WroteBranch b (.mark (.keyword .ifWord) :: (ks ++ (ks' ++ (last ++ more)))))
        (do return .mk (← Grammar.spanFrom start) condition body otherwise) := by
    intro otherwise last
    refine bindSpanFrom fun span => pure fun m hm => ?_
    obtain ⟨⟨hCondition, hBody⟩, hOtherwise⟩ := hm
    have hWritten := (hCondition.spells.append hBody.spells).append hOtherwise.spells
    refine ⟨.token ?_, .of_parts trivial ?_, by simp⟩
    · rw [List.append_nil, ← List.append_assoc]
      exact hWritten
    · rintro part (_ | ⟨_, _ | ⟨_, hPart⟩⟩)
      · exact hCondition.shaped
      · exact hBody.shaped
      · exact hOtherwise.shaped part hPart
  refine crossing (by simp) (by simp) (bindAtMark ?_ ?_) ?_
  · have hNext : SoundAt (.mark (.keyword .ifWord)) (· < bound)
        (fun o last => WroteOtherwise o (.mark (.keyword .elseWord) :: last))
        (Otherwise.branch <$> branch) := by
      rw [map_eq_pure_bind]
      refine hBranch.bind fun next last => pure fun m hm => ?_
      rw [List.append_nil]
      refine ⟨.token hm.2.spells, ?_⟩
      rintro _ (_ | ⟨_, ⟨⟩⟩)
      exact hm.2.shaped
    refine (hNext.weaken fun m hm => by omega).bind fun o last => ?_
    refine (hRest o (.mark (.keyword .elseWord) :: last)).weaken fun m hm => ?_
    exact ⟨⟨hm.1.1.2, hm.1.2⟩, hm.2⟩
  · have hNext : SoundRule (· < bound)
        (fun o last => WroteOtherwise o (.mark (.keyword .elseWord) :: last))
        (Otherwise.block <$> block) := by
      rw [map_eq_pure_bind]
      refine hBlock.bind fun next last => pure fun m hm => ?_
      rw [List.append_nil]
      refine ⟨.token hm.2.spells, ?_⟩
      rintro _ (_ | ⟨_, ⟨⟩⟩)
      exact hm.2.shaped
    refine (hNext.weaken fun m hm => by omega).bind fun o last => ?_
    refine (hRest o (.mark (.keyword .elseWord) :: last)).weaken fun m hm => ?_
    exact ⟨⟨hm.1.1.2, hm.1.2⟩, hm.2⟩
  · refine (hRest .nothing []).weaken fun m hm => ⟨⟨hm.1.2, hm.2⟩, .nil, ?_⟩
    rintro _ ⟨⟩

variable {block : Rule Block} {place : Rule Expr}

theorem ended {known : Nat → Prop} {good : Stmt → List TokenKind → Prop} {start : Span}
    {stmt : Span → Stmt} (h : ∀ m, known m → ∀ span, good (stmt span) []) :
    SoundRule known good (Grammar.ended start stmt) :=
  bindSpanFrom fun span => bindStatementEnd (pure fun m hm => h m hm span)

/-- A binding is read from its word on: a name, a sign of equality and a value. -/
theorem bindStatementWord (hExpression : SoundRule (· < bound) (WroteExpr 0) expression) :
    SoundAt (.mark (.keyword .letWord)) (· ≤ bound) WroteStmt
      (Grammar.bindStatement expression) := by
  refine .bindAdvance nofun nofun fun t => bindName fun name => ?_
  refine bindExpect (by simp) (by simp) ?_
  refine (hExpression.weaken fun m hm => by omega).bind fun value ks => ended fun m hm span => ?_
  rw [List.append_nil]
  refine ⟨.token (.token (.token hm.2.spells)), .of_parts trivial ?_, by simp⟩
  rintro part (_ | ⟨_, ⟨⟩⟩)
  exact hm.2.shaped

theorem isPlace_of_eq_true {e : Expr} (h : Grammar.isPlace e = true) : e.IsPlace := by
  cases e <;> trivial

/-- An assignment is read from its word on: what is assigned to, a sign of equality and a value. -/
theorem assignStatement (hExpression : SoundRule (· < bound) (WroteExpr 0) expression)
    (hPlace : SoundRule (· < bound) (WroteExpr 6) place) :
    SoundAt (.mark (.keyword .setWord)) (· ≤ bound) WroteStmt
      (Grammar.assignStatement expression place) := by
  refine .bindAdvance nofun nofun fun t => ?_
  refine (hPlace.weaken fun m hm => hm).bind fun target ks => ?_
  have hRest : SoundRule (fun m => (ks.length + m + 1 ≤ bound ∧ WroteExpr 6 target ks) ∧
      Grammar.isPlace target = true)
      (fun s more => WroteStmt s (.mark (.keyword .setWord) :: (ks ++ more))) (do
        Rule.expect (.symbol .assign)
        let value ← expression
        Grammar.ended t.span fun span => .assign span target value) := by
    refine bindExpect (by simp) (by simp) ?_
    refine (hExpression.weaken fun m hm => by omega).bind fun value ks' =>
      ended fun m hm span => ?_
    obtain ⟨⟨⟨-, hTarget⟩, hIsPlace⟩, hValue⟩ := hm
    rw [List.append_nil]
    refine ⟨.token (hTarget.spells.append (.token hValue.spells)),
      .of_parts (isPlace_of_eq_true hIsPlace) ?_, by simp⟩
    rintro part (_ | ⟨_, _ | ⟨_, ⟨⟩⟩⟩)
    · exact hTarget.shaped
    · exact hValue.shaped
  dsimp only
  split
  next hIsPlace => exact hRest.weaken fun m hm => ⟨⟨by omega, hm.2⟩, hIsPlace⟩
  next hIsPlace =>
    have hGiveUp : SoundRule (fun _ => False) (fun (_ : Unit) _ => False) Rule.fail :=
      fail fun m h => h
    refine bindProblemAt (hGiveUp.bind fun _ ks' => ?_)
    exact (hRest.weaken fun m hm => hm.2.elim).imp fun m hm => hm.2.elim

/-- A loop over items is read from its word on, with the number of the item if it is named. -/
theorem forStatement (hExpression : SoundRule (· < bound) (WroteExpr 0) expression)
    (hBlock : SoundRule (· < bound) WroteBlock block) :
    SoundAt (.mark (.keyword .forWord)) (· ≤ bound) WroteStmt
      (Grammar.forStatement expression block) := by
  refine .bindAdvance nofun nofun fun t => bindName fun item => ?_
  have hRest : ∀ (i : Option Ident) (ks : List TokenKind), Spells (Written.index i) ks →
      SoundRule (fun m => m < bound)
        (fun s more => WroteStmt s
          (.mark (.keyword .forWord) :: .name item.name :: (ks ++ more))) (do
          Rule.expect (.keyword .inWord)
          let iterable ← expression
          let body ← block
          Grammar.ended t.span fun span => .forEach span item i iterable body) := by
    intro i ks hIndex
    refine bindExpect (by simp) (by simp) ?_
    refine (hExpression.weaken fun m hm => by omega).bind fun iterable ks' => ?_
    refine (hBlock.weaken fun m hm => by omega).bind fun body ks'' => ended fun m hm span => ?_
    obtain ⟨⟨-, hIterable⟩, hBody⟩ := hm
    rw [List.append_nil]
    refine ⟨.token (.token (hIndex.append (.token (hIterable.spells.append hBody.spells)))),
      .of_parts trivial ?_, by simp⟩
    rintro part (_ | ⟨_, _ | ⟨_, ⟨⟩⟩⟩)
    · exact hIterable.shaped
    · exact hBody.shaped
  refine bindEat (by simp) (by simp) ?_ ?_
  · rw [if_pos rfl, map_eq_pure_bind, bind_assoc]
    refine bindName fun index => ?_
    exact (hRest (some index) [.mark (.symbol .comma), .name index.name]
      (.token (.token .nil))).weaken fun m hm => by omega
  · rw [if_neg (by simp)]
    exact (hRest none [] .nil).weaken fun m hm => by omega

/-- A loop with a condition is read from its word on. -/
theorem whileStatement (hExpression : SoundRule (· < bound) (WroteExpr 0) expression)
    (hBlock : SoundRule (· < bound) WroteBlock block) :
    SoundAt (.mark (.keyword .whileWord)) (· ≤ bound) WroteStmt
      (Grammar.whileStatement expression block) := by
  refine .bindAdvance nofun nofun fun t => ?_
  refine (hExpression.weaken fun m hm => hm).bind fun condition ks => ?_
  refine (hBlock.weaken fun m hm => by omega).bind fun body ks' => ended fun m hm span => ?_
  obtain ⟨⟨-, hCondition⟩, hBody⟩ := hm
  rw [List.append_nil]
  refine ⟨.token (hCondition.spells.append hBody.spells), .of_parts trivial ?_, by simp⟩
  rintro part (_ | ⟨_, _ | ⟨_, ⟨⟩⟩⟩)
  · exact hCondition.shaped
  · exact hBody.shaped

/-- A return statement is read from its word on, with its value if there is one on the line. -/
theorem resultStatement (hExpression : SoundRule (· < bound) (WroteExpr 0) expression) :
    SoundAt (.mark (.keyword .returnWord)) (· ≤ bound) WroteStmt
      (Grammar.resultStatement expression) := by
  refine .bindAdvance nofun nofun fun t => bindPeek fun k => ?_
  have hNone : SoundRule (fun m => m + 1 ≤ bound)
      (fun s more => WroteStmt s (.mark (.keyword .returnWord) :: more))
      (Grammar.ended t.span fun span => .result span none) :=
    ended fun m hm span => ⟨.token .nil, .of_parts trivial (by rintro _ ⟨⟩), by simp⟩
  split
  · exact hNone.here
  · exact hNone.here
  · exact hNone.here
  · rw [map_eq_pure_bind, bind_assoc]
    refine here ((hExpression.weaken fun m hm => hm).bind fun value ks => ?_)
    rw [pure_bind]
    refine ended fun m hm span => ?_
    rw [List.append_nil]
    refine ⟨.token hm.2.spells, .of_parts trivial ?_, by simp⟩
    rintro part (_ | ⟨_, ⟨⟩⟩)
    exact hm.2.shaped

/-- An assertion is read from its word on, with its message if there is a comma. -/
theorem checkStatement (hExpression : SoundRule (· < bound) (WroteExpr 0) expression) :
    SoundAt (.mark (.keyword .assertWord)) (· ≤ bound) WroteStmt
      (Grammar.checkStatement expression) := by
  refine .bindAdvance nofun nofun fun t => ?_
  refine (hExpression.weaken fun m hm => hm).bind fun condition ks => ?_
  refine bindEat (by simp) (by simp) ?_ ?_
  · rw [if_pos rfl, map_eq_pure_bind, bind_assoc]
    refine (hExpression.weaken fun m hm => by omega).bind fun message ks' => ?_
    rw [pure_bind]
    refine ended fun m hm span => ?_
    obtain ⟨⟨-, hCondition⟩, hMessage⟩ := hm
    rw [List.append_nil]
    refine ⟨.token (hCondition.spells.append (.token hMessage.spells)), .of_parts trivial ?_,
      by simp⟩
    rintro part (_ | ⟨_, _ | ⟨_, ⟨⟩⟩⟩)
    · exact hCondition.shaped
    · exact hMessage.shaped
  · rw [if_neg (by simp), pure_bind]
    refine ended fun m hm span => ?_
    rw [List.append_nil]
    refine ⟨.token hm.2.spells, .of_parts trivial ?_, by simp⟩
    rintro part (_ | ⟨_, ⟨⟩⟩)
    exact hm.2.shaped

/-- One more name of a list is written behind a comma. -/
theorem written_names_snoc (n : Ident) (names : List Ident) (last : Ident) :
    Written.names (n :: names ++ [last]) =
      Written.names (n :: names) ++ [.symbol .comma, .name last] := by
  induction names generalizing n with
  | nil => rfl
  | cons next rest ih =>
      change .name n :: .symbol .comma :: Written.names (next :: rest ++ [last]) = _
      rw [ih]
      rfl

/-- Global names, of which some have been read. -/
structure WroteNames (names : List Ident) (ks : List TokenKind) : Prop where
  spells : Spells (Written.names names) ks
  filled : names ≠ []

/-- By induction on the bound of rounds: names are read as long as a comma follows. -/
theorem moreNames (fuel : Nat) (before : List Ident) (ks : List TokenKind) :
    SoundRule (fun m => m ≤ fuel ∧ WroteNames before ks)
      (fun names more => WroteNames names (ks ++ more)) (Grammar.moreNames fuel before) := by
  induction fuel generalizing before ks with
  | zero => exact fail fun m hm => by omega
  | succ fuel ih =>
      refine bindEat (by simp) (by simp) ?_ (pure fun m hm => by simpa using hm.2)
      refine bindName fun name => ?_
      refine ((ih (before ++ [name]) (ks ++ [.mark (.symbol .comma), .name name.name])).weaken
        fun m hm => ?_).imp ?_
      · obtain ⟨hFuel, hSpells, hFilled⟩ := hm
        refine ⟨by omega, ?_, by simp⟩
        obtain ⟨n, rest, rfl⟩ := List.exists_cons_of_ne_nil hFilled
        rw [written_names_snoc]
        exact hSpells.append (.token (.token .nil))
      · intro m _ names more hMore
        simpa using hMore

/-- A list of globals is read from its word on and has one name at least. -/
theorem globalsStatement :
    SoundAt (.mark (.keyword .globalWord)) (· ≤ bound) WroteStmt Grammar.globalsStatement := by
  refine .bindAdvance nofun nofun fun t => bindName fun first => bindRounds fun n => ?_
  refine ((moreNames n [first] [.name first.name]).weaken fun m hm => ?_).bind fun names ks =>
    ended fun m hm span => ?_
  · exact ⟨hm.2, .token .nil, by simp⟩
  · rw [List.append_nil]
    refine ⟨.token hm.2.spells, .of_parts hm.2.filled ?_, by simp⟩
    rintro _ ⟨⟩

/-- An expression that stands as a statement is written as it is. -/
theorem expressionStatement (hExpression : SoundRule (· ≤ bound) (WroteExpr 0) expression) :
    SoundRule (· ≤ bound) WroteStmt (Grammar.expressionStatement expression) := by
  refine hExpression.bind fun value ks => bindAt fun assigned => ?_
  have hRest : SoundRule (fun m => ks.length + m ≤ bound ∧ WroteExpr 0 value ks)
      (fun s more => WroteStmt s (ks ++ more)) (do
        Rule.expectStatementEnd
        return .expr value) := by
    refine bindStatementEnd (pure fun m hm => ?_)
    rw [List.append_nil]
    refine ⟨hm.2.spells, .of_parts trivial ?_, hm.2.filled⟩
    rintro part (_ | ⟨_, ⟨⟩⟩)
    exact hm.2.shaped
  split
  · have hGiveUp : ∀ message, SoundRule (fun m => ks.length + m ≤ bound ∧ WroteExpr 0 value ks)
        (fun (_ : Unit) _ => False) (Rule.unexpected message) := fun message => unexpected message
    refine (hGiveUp _).bind fun _ ks' => ?_
    exact (hRest.weaken fun m hm => hm.2.elim).imp fun m hm => hm.2.elim
  · exact hRest

/-- Which statement is read depends on the word at its start; what starts with no such word is an
expression. -/
theorem statementOf {declaration : Rule Function} {branch : Rule Branch}
    (hExpression : SoundRule (· ≤ bound) (WroteExpr 0) expression)
    (hPlace : SoundRule (· < bound) (WroteExpr 6) place)
    (hDeclaration : SoundAt (.mark (.keyword .fnWord)) (· ≤ bound) (WroteFunction true) declaration)
    (hBlock : SoundRule (· < bound) WroteBlock block)
    (hBranch : SoundAt (.mark (.keyword .ifWord)) (· ≤ bound) WroteBranch branch) :
    SoundRule (· ≤ bound) WroteStmt
      (Grammar.statementOf expression place declaration block branch) := by
  have hInside : SoundRule (· < bound) (WroteExpr 0) expression :=
    hExpression.weaken fun m hm => Nat.le_of_lt hm
  have hSingle : ∀ (k : Keyword) (stmt : Span → Stmt),
      (∀ span, WroteStmt (stmt span) [.mark (.keyword k)]) →
      SoundAt (.mark (.keyword k)) (· ≤ bound) WroteStmt (do
        Grammar.ended (← Rule.advance).span stmt) := fun k stmt hStmt =>
    .bindAdvance nofun nofun fun t => ended fun m hm span => hStmt span
  refine bindPeek fun k => ?_
  split
  · exact bindStatementWord hInside
  · exact assignStatement hInside hPlace
  · refine .bindPeekNext fun next => ?_
    split
    · refine hDeclaration.bind fun f ks => bindStatementEnd (pure fun m hm => ?_)
      rw [List.append_nil]
      refine ⟨hm.2.spells, .of_parts hm.2.name ?_, hm.2.filled⟩
      rintro part (_ | ⟨_, ⟨⟩⟩)
      exact hm.2.shaped
    · exact (expressionStatement hExpression).here
  · refine hBranch.bind fun b ks => bindStatementEnd (pure fun m hm => ?_)
    rw [List.append_nil]
    refine ⟨hm.2.spells, .of_parts trivial ?_, hm.2.filled⟩
    rintro part (_ | ⟨_, ⟨⟩⟩)
    exact hm.2.shaped
  · exact forStatement hInside hBlock
  · exact whileStatement hInside hBlock
  · exact hSingle _ _ fun span => ⟨.token .nil, .of_parts trivial (by rintro _ ⟨⟩), by simp⟩
  · exact hSingle _ _ fun span => ⟨.token .nil, .of_parts trivial (by rintro _ ⟨⟩), by simp⟩
  · exact resultStatement hInside
  · exact checkStatement hInside
  · exact globalsStatement
  · exact (expressionStatement hExpression).here

/-- The rules of one nesting accept only what they are to accept, if not too many tokens are left.
Between two tokens, rules nest at most six deep. -/
structure RulesSound (fuel : Nat) : Prop where
  expression : ∀ bound, 8 * bound + 5 ≤ fuel + 8 →
    SoundRule (· ≤ bound) (WroteExpr 0) (Grammar.expression fuel)
  unary : ∀ bound, 8 * bound + 4 ≤ fuel + 8 →
    SoundRule (· ≤ bound) (WroteExpr 5) (Grammar.unary fuel)
  postfixes : ∀ bound, 8 * bound + 3 ≤ fuel + 8 →
    SoundRule (· ≤ bound) (WroteExpr 6) (Grammar.postfixes fuel)
  primary : ∀ bound, 8 * bound + 2 ≤ fuel + 8 →
    SoundRule (· ≤ bound) (WroteExpr 6) (Grammar.primary fuel)
  function : ∀ bound named, 8 * bound + 1 ≤ fuel + 8 →
    SoundAt (.mark (.keyword .fnWord)) (· ≤ bound) (WroteFunction named)
      (Grammar.function fuel named)
  block : ∀ bound, 8 * bound + 1 ≤ fuel + 8 →
    SoundRule (· ≤ bound) WroteBlock (Grammar.block fuel)
  branch : ∀ bound, 8 * bound + 1 ≤ fuel + 8 →
    SoundAt (.mark (.keyword .ifWord)) (· ≤ bound) WroteBranch (Grammar.branch fuel)
  statement : ∀ bound, 8 * bound + 6 ≤ fuel + 8 →
    SoundRule (· ≤ bound) WroteStmt (Grammar.statement fuel)

/-- A rule that is reached after a token has been read. -/
theorem after {Result : Type} {good : Result → List TokenKind → Prop} {rule : Rule Result}
    {rank fuel : Nat} (hRank : rank ≤ 8)
    (h : ∀ bound, 8 * bound + rank ≤ fuel + 8 → SoundRule (· ≤ bound) good rule) (bound : Nat)
    (hBound : 8 * bound + rank ≤ fuel + 16) : SoundRule (· < bound) good rule :=
  (h (bound - 1) (by omega)).weaken fun m hm => by omega

/-- By induction on the bound of depth: all rules read what is written, since each calls others with
less of it. -/
theorem rulesSound (fuel : Nat) : RulesSound fuel := by
  induction fuel with
  | zero =>
      refine ⟨?_, ?_, ?_, ?_, ?_, ?_, ?_, ?_⟩
      · exact fun bound hBound => fail fun m hm => by omega
      · exact fun bound hBound => fail fun m hm => by omega
      · exact fun bound hBound => fail fun m hm => by omega
      · exact fun bound hBound => fail fun m hm => by omega
      · exact fun bound named hBound => here (fail fun m hm => by omega)
      · exact fun bound hBound => fail fun m hm => by omega
      · exact fun bound hBound => here (fail fun m hm => by omega)
      · exact fun bound hBound => fail fun m hm => by omega
  | succ fuel ih =>
      have hExpression := after (by simp) ih.expression
      have hBlock := after (by simp) ih.block
      refine ⟨?_, ?_, ?_, ?_, ?_, ?_, ?_, ?_⟩
      · exact fun bound hBound => nested (operators (ih.unary bound (by omega)))
      · intro bound hBound
        exact unaryOf (after (by simp) ih.unary bound (by omega)) (ih.postfixes bound (by omega))
      · intro bound hBound
        exact postfixesOf (hExpression bound (by omega)) (ih.primary bound (by omega))
      · intro bound hBound
        exact primaryOf (hExpression bound (by omega)) (ih.function bound false (by omega))
      · exact fun bound named hBound => functionOf (hBlock bound (by omega)) named
      · exact fun bound hBound => blockOf (after (by simp) ih.statement bound (by omega))
      · intro bound hBound
        refine branchOf (hExpression bound (by omega)) (hBlock bound (by omega)) ?_
        exact (ih.branch (bound - 1) (by omega)).weaken fun m hm => by omega
      · intro bound hBound
        exact statementOf (ih.expression bound (by omega))
          (after (by simp) ih.postfixes bound (by omega)) (ih.function bound true (by omega))
          (hBlock bound (by omega)) (ih.branch bound (by omega))

end SoundRule

/-- What comes of a rule that reads all tokens: a problem, or a good result of all that were left.
-/
def SoundToEnd {Result : Type} (known : Nat → Prop) (good : Result → List TokenKind → Prop)
    (rule : Rule Result) : Prop :=
  ∀ r, r.Ended → (r.Clean → known r.left.length) → ∀ result r', rule r = .ok result r' →
    r'.Clean → r.Clean ∧ good result r.left

namespace SoundToEnd

variable {Result Next : Type} {known : Nat → Prop} {good : Result → List TokenKind → Prop}
  {fine : Next → List TokenKind → Prop}

/-- A rule before one that reads all tokens. -/
theorem before {first : Rule Result} {second : Result → Rule Next}
    (hFirst : SoundRule known good first)
    (hSecond : ∀ result ks, SoundToEnd (fun m => known (ks.length + m) ∧ good result ks)
      (fun next more => fine next (ks ++ more)) (second result)) :
    SoundToEnd known fine (first >>= second) := by
  intro r hEnded hKnown next r' hRun hClean
  have hOutcome := hFirst r hEnded hKnown
  change EStateM.bind first second r = _ at hRun
  unfold EStateM.bind at hRun
  cases hStep : first r with
  | error failure r₁ =>
      rw [hStep] at hRun
      cases hRun
  | ok result r₁ =>
      rw [hStep] at hRun hOutcome
      obtain ⟨hEnded', hGood⟩ := hOutcome
      by_cases hMiddle : r₁.Clean
      · obtain ⟨hBefore, ks, hLeft, hResult⟩ := hGood hMiddle
        have hNumber := hKnown hBefore
        rw [hLeft, List.length_append] at hNumber
        obtain ⟨-, hFine⟩ :=
          hSecond result ks r₁ hEnded' (fun _ => ⟨hNumber, hResult⟩) next r' hRun hClean
        exact ⟨hBefore, hLeft ▸ hFine⟩
      · have hStill :=
          hSecond result [] r₁ hEnded' (fun h => (hMiddle h).elim) next r' hRun hClean
        exact (hMiddle hStill.1).elim

/-- A step before a rule that reads all tokens. -/
theorem step {first : Rule Result} {second : Result → Rule Next}
    (hFirst : SoundRule known (fun _ ks => ks = []) first)
    (hSecond : ∀ result, SoundToEnd known fine (second result)) :
    SoundToEnd known fine (first >>= second) := by
  refine before hFirst fun result ks r hEnded hKnown next r' hRun hClean => ?_
  have hBefore := (hSecond result r hEnded (fun h => ?_) next r' hRun hClean)
  · obtain ⟨-, rfl⟩ := hKnown hBefore.1
    exact hBefore
  · obtain ⟨hNumber, rfl⟩ := hKnown h
    rwa [List.length_nil, Nat.zero_add] at hNumber

theorem skipNewlines : SoundRule known (fun _ ks => ks = []) Rule.skipNewlines := by
  intro r hEnded hKnown
  obtain ⟨hEnded', hLeft⟩ := hEnded.skipNewlines
  exact ⟨hEnded', fun hClean => ⟨hClean, [], hLeft, rfl⟩⟩

/-- After a problem, it does not matter what a rule reads. -/
theorem discardAdvance (hNever : ∀ m, ¬ known m) :
    SoundRule known (fun _ ks => ks = []) (discard Rule.advance) := by
  intro r hEnded hKnown
  have hProblem : ¬ r.Clean := fun hClean => hNever _ (hKnown hClean)
  by_cases hKind : r.cursor.current.kind = .mark .endOfInput
  · have hLast : r.cursor.upcoming = [] := hEnded.upcoming_of_end hKind
    have hSame : r.cursor.advance = r.cursor := by rw [Cursor.advance, hLast]
    have hRun : discard Rule.advance r = .ok () { r with cursor := r.cursor.advance } := rfl
    rw [hRun, hSame]
    exact ⟨hEnded, fun hClean => (hProblem hClean).elim⟩
  · exact ⟨hEnded.advance hKind, fun hClean => (hProblem hClean).elim⟩

theorem resync (hNever : ∀ m, ¬ known m) : SoundRule known (fun _ ks => ks = []) Rule.resync := by
  intro r hEnded hKnown
  have hProblem : ¬ r.Clean := fun hClean => hNever _ (hKnown hClean)
  exact ⟨Reading.passStatement_ended _ _ _ _ _ _ hEnded, fun hClean => (hProblem hClean).elim⟩

/-- After a problem, a rule ends with one. -/
theorem of_never {other : Result → List TokenKind → Prop} {less : Nat → Prop} {rule : Rule Result}
    (h : SoundToEnd less other rule) (hNever : ∀ m, ¬ known m) : SoundToEnd known good rule := by
  intro r hEnded hKnown result r' hRun hClean
  have hProblem : ¬ r.Clean := fun hClean => hNever _ (hKnown hClean)
  exact (hProblem (h r hEnded (fun h => (hProblem h).elim) result r' hRun hClean).1).elim

/-- The statements from one on, up to the end. -/
theorem topStatement {bound fuel : Nat} {statement : Rule Stmt}
    {next : List Stmt → Rule (List Stmt)}
    (hStatement : SoundRule (· ≤ bound) SoundRule.WroteStmt statement)
    (hNext : ∀ found, SoundToEnd (fun m => m ≤ bound ∧ m ≤ fuel)
      (fun stmts ks => ∃ more ks', stmts = found ++ more ∧ ks = ks' ++ [.mark .endOfInput] ∧
        SoundRule.WroteStmts more ks') (next found)) (found : List Stmt) :
    SoundToEnd (fun m => m ≤ bound ∧ m ≤ fuel + 1)
      (fun stmts ks => ∃ more ks', stmts = found ++ more ∧ ks = ks' ++ [.mark .endOfInput] ∧
        SoundRule.WroteStmts more ks') (do
        let stmt? ← Rule.orElseNone statement
        if stmt?.isNone then Rule.resync
        Rule.skipNewlines
        next (found ++ stmt?.toList)) := by
  refine before (SoundRule.orElseNone (hStatement.weaken fun m hm => hm.1)) fun stmt? ks => ?_
  cases stmt? with
  | none =>
      have hNever : ∀ m, ¬ ((ks.length + m ≤ bound ∧ ks.length + m ≤ fuel + 1) ∧
          ∃ result, (none : Option Stmt) = some result ∧ SoundRule.WroteStmt result ks) := by
        rintro m ⟨-, _, ⟨⟩, -⟩
      exact step (resync hNever) fun _ => step skipNewlines fun _ => (hNext _).of_never hNever
  | some s =>
      refine step skipNewlines fun _ r hEnded hKnown stmts r' hRun hClean => ?_
      have hFewer : r.Clean → r.left.length ≤ bound ∧ r.left.length ≤ fuel := by
        intro hBefore
        obtain ⟨⟨hBound, hFuel⟩, _, ⟨⟩, hStmt⟩ := hKnown hBefore
        have hPositive := List.length_pos_of_ne_nil hStmt.filled
        omega
      obtain ⟨hBefore, more, ks', rfl, hLeft, hMore⟩ :=
        hNext (found ++ [s]) r hEnded hFewer stmts r' hRun hClean
      obtain ⟨-, _, ⟨⟩, hStmt⟩ := hKnown hBefore
      refine ⟨hBefore, s :: more, ks ++ ks', List.append_assoc _ _ _, ?_, hMore.cons hStmt⟩
      rw [hLeft, List.append_assoc]

/-- The top level is read to the end of the input: statements one after the other, and nothing
behind them. -/
theorem topLevel {bound : Nat} {statement : Rule Stmt}
    (hStatement : SoundRule (· ≤ bound) SoundRule.WroteStmt statement) (fuel : Nat)
    (found : List Stmt) :
    SoundToEnd (fun m => m ≤ bound ∧ m ≤ fuel)
      (fun stmts ks => ∃ more ks', stmts = found ++ more ∧ ks = ks' ++ [.mark .endOfInput] ∧
        SoundRule.WroteStmts more ks') (Grammar.topLevel statement fuel found) := by
  induction fuel generalizing found with
  | zero =>
      intro r hEnded hKnown stmts r' hRun hClean
      obtain ⟨rfl, rfl⟩ : found = stmts ∧ r = r' := by
        injection hRun with hStmts hSame
        exact ⟨hStmts, hSame⟩
      have hNumber := (hKnown hClean).2
      exact (hEnded.left_ne_nil (List.eq_nil_of_length_eq_zero (Nat.le_zero.1 hNumber))).elim
  | succ fuel ih =>
      have hBrace : SoundToEnd (fun m => m ≤ bound ∧ m ≤ fuel + 1)
          (fun stmts ks => ∃ more ks', stmts = found ++ more ∧ ks = ks' ++ [.mark .endOfInput] ∧
            SoundRule.WroteStmts more ks') (do
            Rule.problem .unexpectedToken "unmatched '\x7d'"
            discard Rule.advance
            Rule.skipNewlines
            Grammar.topLevel statement fuel found) := by
        have hProblem : SoundRule (fun m => m ≤ bound ∧ m ≤ fuel + 1) (fun _ _ => False)
            (Rule.problem .unexpectedToken "unmatched '\x7d'") := SoundRule.problem _ _
        refine before hProblem fun _ ks => ?_
        refine step (discardAdvance fun m hm => hm.2) fun _ => step skipNewlines fun _ => ?_
        exact (ih found).of_never fun m hm => hm.2
      intro r hEnded hKnown
      change ∀ stmts r', (if (decide (r.cursor.current.kind = .mark .endOfInput) ||
        r.report.isFull) = true then Pure.pure found else _ : Rule (List Stmt)) r = _ → _
      by_cases hEnd : r.cursor.current.kind = .mark .endOfInput
      · rw [if_pos (by simp [hEnd])]
        rintro _ _ ⟨⟩ hClean
        exact ⟨hClean, [], [], (List.append_nil found).symm, hEnded.left_of_end hEnd, .nil, by simp⟩
      · by_cases hFull : r.report.isFull = true
        · rw [if_pos (by simp [hFull])]
          rintro _ _ ⟨⟩ hClean
          rw [Report.isFull, hClean] at hFull
          cases hFull
        · rw [if_neg (by simp [hEnd, hFull])]
          change ∀ stmts r', (if decide (r.cursor.current.kind = .mark (.symbol .rightBrace)) = true
            then _ else _ : Rule (List Stmt)) r = _ → _
          split
          · exact hBrace r hEnded hKnown
          · exact topStatement hStatement ih found r hEnded hKnown

end SoundToEnd

/-- All tokens of a file stand in it, each one behind the one before. -/
theorem tokensStand_tokens (file : SourceFile) :
    TokensStand ⟨.origin, file.text.toList⟩ (tokens file).1 := by
  have hStart : Scan.Sound ⟨.origin, file.text.toList⟩ ⟨file.text.toList, .origin, [], {}⟩ :=
    ⟨.refl _, reportStands_empty _, by simp, by simp⟩
  obtain ⟨more, position, hTokens, hPosition, hMore⟩ := (hStart.takeAll file _ []).tokens
  exact ⟨more, position, hTokens, hPosition, hMore⟩

/-- Only the last token is the end mark. -/
theorem ended_ofTokens (file : SourceFile) {tokens : List Token} {a : Place}
    (h : TokensStand a tokens) :
    Reading.Ended ⟨file, .ofTokens tokens, {}, 0⟩ ∧
      Reading.left ⟨file, .ofTokens tokens, {}, 0⟩ =
        (tokens.map (·.kind)).filter (· ≠ .mark .newline) := by
  obtain ⟨more, position, rfl, -, hMore⟩ := h
  constructor
  · refine ⟨more, ⟨.mark .endOfInput, .point position⟩, ?_, rfl, fun t ht => (hMore t ht).kind⟩
    cases more with
    | nil => rfl
    | cons first more => rfl
  · cases more with
    | nil => rfl
    | cons first more => rfl

/-- If there is enough fuel for the tokens that are left, a script that is read without a problem is
written with these tokens, and has the shape that the grammar asks of it. -/
theorem soundToEnd_program (bound fuel : Nat) (hFuel : 8 * bound + 6 ≤ fuel + 8) :
    SoundToEnd (· ≤ bound) (fun (p : Program) ks => Spells (p.written []) ks ∧ p.Shaped)
      (Grammar.program fuel) := by
  have hStatement := (SoundRule.rulesSound fuel).statement bound hFuel
  refine SoundToEnd.step SoundToEnd.skipNewlines fun _ => ?_
  intro r hEnded hKnown p r' hRun hClean
  have hRounds : r.left.length ≤ r.cursor.upcoming.length + maxProblems + 2 :=
    Nat.le_trans r.left_length_le (by omega)
  change EStateM.bind (topLevel (statement fuel) (r.cursor.upcoming.length + maxProblems + 2) [])
    _ r = _ at hRun
  rw [EStateM.bind] at hRun
  cases hTop : topLevel (statement fuel) (r.cursor.upcoming.length + maxProblems + 2) [] r with
  | error failure r₁ =>
      rw [hTop] at hRun
      cases hRun
  | ok stmts r₁ =>
      rw [hTop] at hRun
      injection hRun with hProgram hSame
      subst hSame
      obtain ⟨hBefore, more, ks, rfl, hLeft, hMore⟩ := SoundToEnd.topLevel hStatement _ [] r hEnded
        (fun hBefore => ⟨hKnown hBefore, hRounds⟩) stmts _ hTop hClean
      refine ⟨hBefore, ?_, ?_⟩
      · rw [← hProgram, hLeft]
        exact hMore.spells.append (.token .nil)
      · rw [← hProgram]
        exact hMore.shaped

/-- Every script that is read without a problem gives back, when its tree is written from left to
right, the tokens it was read from, but for line ends, commas in front of closing brackets, and how
names of fields are spelled. Its operators are nested by their strength, it assigns to names, fields
and indexes only, and it lists no name twice. -/
theorem written_of_parse {file : SourceFile} {p : Program} (h : (parse file).program = some p) :
    Spells (p.written []) (((tokens file).1.map (·.kind)).filter (· ≠ .mark .newline)) ∧
      p.Shaped := by
  have hParsed : (parseTokens file (tokens file).1).program = some p := by
    unfold parse at h
    dsimp only at h
    split at h
    · cases h
    · exact h
  obtain ⟨hEnded, hLeft⟩ := ended_ofTokens file (tokensStand_tokens file)
  obtain ⟨program, r, hRun⟩ := Finishes.program (8 * (tokens file).1.length + 8)
    ⟨file, .ofTokens (tokens file).1, {}, 0⟩
  unfold parseTokens at hParsed
  dsimp only at hParsed
  rw [hRun] at hParsed
  dsimp only at hParsed
  split at hParsed
  next => cases hParsed
  next hProblems =>
    obtain rfl := Option.some.inj hParsed
    have hClean : r.Clean := by simpa [Report.hasProblems, Reading.Clean] using hProblems
    have hFew : (((tokens file).1.map (·.kind)).filter
        (fun k => decide (k ≠ .mark .newline))).length ≤ (tokens file).1.length :=
      Nat.le_trans (List.length_filter_le _ _) (Nat.le_of_eq (List.length_map _))
    have hSound := soundToEnd_program (tokens file).1.length (8 * (tokens file).1.length + 8)
      (by omega) _ hEnded (fun _ => hLeft ▸ hFew) program r hRun hClean
    rw [← hLeft]
    exact hSound.2

/-- A script with an operator, a call, a record and a text with a hole. -/
def mixedScript : SourceFile :=
  .ofText "mixed" "let x = f(1 + 2 * y, a: \x7bin: 3,\x7d)\nx.in\n"

/-- A script with statements of several kinds is read, and its tokens without line ends are those
its tree is written with. -/
theorem written_of_parse_mixedScript :
    ∃ p, (parse mixedScript).program = some p ∧
      Spells (p.written [])
        (((tokens mixedScript).1.map (·.kind)).filter (· ≠ .mark .newline)) ∧ p.Shaped := by
  have hParses : (parse mixedScript).program.isSome = true := by decide +kernel
  obtain ⟨p, hp⟩ := Option.isSome_iff_exists.1 hParses
  exact ⟨p, hp, written_of_parse hp⟩

end Metagen.Script
