import Metagen.Proofs.Script.Bare
import Metagen.Proofs.Script.Taking

/-! Scripts with one statement a line, phrase by phrase: which tokens a part of a tree is written
with, which token comes first, and which one may come next. -/

namespace Metagen.Script

abbrev line : List Written := [.token (.mark .newline)]

/-- The tokens start with a spelling of what is written, and these are left behind it. -/
def LeavesTokens (ws : List Written) (before after : List TokenKind) : Prop :=
  ∃ ks, Spells ws ks ∧ before = ks ++ after

namespace LeavesTokens

variable {ws ws' : List Written} {k : TokenKind} {before after : List TokenKind}

theorem of_nil (h : LeavesTokens [] before after) : before = after := by
  obtain ⟨_, hSpells, rfl⟩ := h
  cases hSpells
  rfl

/-- Tokens that are left by two writings are left by one and then by the other. -/
theorem append (h : LeavesTokens (ws ++ ws') before after) :
    ∃ middle, LeavesTokens ws before middle ∧ LeavesTokens ws' middle after := by
  obtain ⟨ks, hSpells, rfl⟩ := h
  suffices hSplit : ∃ ks₁ ks₂, Spells ws ks₁ ∧ Spells ws' ks₂ ∧ ks = ks₁ ++ ks₂ by
    obtain ⟨ks₁, ks₂, hFirst, hSecond, rfl⟩ := hSplit
    exact ⟨ks₂ ++ after, ⟨ks₁, hFirst, List.append_assoc _ _ _⟩, ks₂, hSecond, rfl⟩
  induction ws generalizing ks with
  | nil => exact ⟨[], ks, .nil, hSpells, rfl⟩
  | cons w rest ih =>
      cases hSpells with
      | token hRest =>
          obtain ⟨ks₁, ks₂, hFirst, hSecond, rfl⟩ := ih _ hRest
          exact ⟨_ :: ks₁, ks₂, .token hFirst, hSecond, rfl⟩
      | key hKey hRest =>
          obtain ⟨ks₁, ks₂, hFirst, hSecond, rfl⟩ := ih _ hRest
          exact ⟨_ :: ks₁, ks₂, .key hKey hFirst, hSecond, rfl⟩
      | comma hRest =>
          obtain ⟨ks₁, ks₂, hFirst, hSecond, rfl⟩ := ih _ hRest
          exact ⟨_ :: ks₁, ks₂, .comma hFirst, hSecond, rfl⟩
      | noComma hRest =>
          obtain ⟨ks₁, ks₂, hFirst, hSecond, rfl⟩ := ih _ hRest
          exact ⟨ks₁, ks₂, .noComma hFirst, hSecond, rfl⟩

theorem token (h : LeavesTokens (.token k :: ws) before after) :
    ∃ rest, before = k :: rest ∧ LeavesTokens ws rest after := by
  obtain ⟨_, hSpells, rfl⟩ := h
  cases hSpells with
  | token hRest => exact ⟨_, rfl, _, hRest, rfl⟩

theorem single (h : LeavesTokens [.token k] before after) : before = k :: after := by
  obtain ⟨rest, rfl, hRest⟩ := h.token
  rw [hRest.of_nil]

theorem key {name : String} (h : LeavesTokens (.key name :: ws) before after) :
    ∃ k rest, before = k :: rest ∧ k.SpellsKey name ∧ LeavesTokens ws rest after := by
  obtain ⟨_, hSpells, rfl⟩ := h
  cases hSpells with
  | key hKey hRest => exact ⟨_, _, rfl, hKey, _, hRest, rfl⟩

theorem comma (h : LeavesTokens (.optionalComma :: ws) before after) :
    (∃ rest, before = .mark (.symbol .comma) :: rest ∧ LeavesTokens ws rest after) ∨
      LeavesTokens ws before after := by
  obtain ⟨_, hSpells, rfl⟩ := h
  cases hSpells with
  | comma hRest => exact .inl ⟨_, rfl, _, hRest, rfl⟩
  | noComma hRest => exact .inr ⟨_, hRest, rfl⟩

theorem length_le (h : LeavesTokens ws before after) : after.length ≤ before.length := by
  obtain ⟨ks, -, rfl⟩ := h
  rw [List.length_append]
  omega

end LeavesTokens

/-- The node stands in front of the first tokens, is written with them up to those left, has the
shape that the grammar asks of it, and is not nested too deep when it stands this deep itself. -/
structure Phrase (node : Node) (depth : Nat) (before after : List TokenKind) : Prop where
  written : LeavesTokens (node.written line) before after
  shaped : node.Shaped
  shallow : depth + node.nesting ≤ Grammar.maxDepth

theorem BinaryOp.exists_token (op : BinaryOp) : ∃ k, op.written = .token k := by
  cases op <;> exact ⟨_, rfl⟩

theorem BinaryOp.written_injective {op other : BinaryOp} (h : op.written = other.written) :
    op = other := by
  cases op <;> cases other <;> first | rfl | cases h

namespace Phrase

variable {d : Nat} {before after : List TokenKind} {span : Span}

/-- The phrase of an operation is that of its first operand, the operator, and that of its second
one. -/
theorem binary {op : BinaryOp} {left right : Expr}
    (h : Phrase (.expr (.binary span op left right)) d before after) :
    ∃ k middle, op.written = .token k ∧ Phrase (.expr left) d before (k :: middle) ∧
      Phrase (.expr right) d middle after := by
  obtain ⟨k, hOp⟩ := op.exists_token
  obtain ⟨hWritten, hShaped, hShallow⟩ := h
  change LeavesTokens (left.written line ++ op.written :: right.written line) before after
    at hWritten
  change d + max left.nesting right.nesting ≤ _ at hShallow
  rw [hOp] at hWritten
  obtain ⟨_, hLeft, hRest⟩ := hWritten.append
  obtain ⟨middle, rfl, hRight⟩ := hRest.token
  refine ⟨k, middle, hOp, ⟨hLeft, hShaped.part (by simp [Node.parts, Expr.parts]), ?_⟩,
    ⟨hRight, hShaped.part (by simp [Node.parts, Expr.parts]), ?_⟩⟩
  · change d + left.nesting ≤ _
    omega
  · change d + right.nesting ≤ _
    omega

/-- The phrase of an operation with one operand is the operator and that of the operand. -/
theorem unary {op : UnaryOp} {operand : Expr}
    (h : Phrase (.expr (.unary span op operand)) d before after) :
    ∃ k rest, op.written = .token k ∧ before = k :: rest ∧ Phrase (.expr operand) d rest after := by
  obtain ⟨k, hOp⟩ : ∃ k, op.written = .token k := by cases op <;> exact ⟨_, rfl⟩
  obtain ⟨hWritten, hShaped, hShallow⟩ := h
  change LeavesTokens (op.written :: operand.written line) before after at hWritten
  rw [hOp] at hWritten
  obtain ⟨rest, rfl, hOperand⟩ := hWritten.token
  exact ⟨k, rest, hOp, rfl, hOperand, hShaped.part (by simp [Node.parts, Expr.parts]), hShallow⟩

/-- The phrase of a field is that of the object, a dot, and the name or the word that spells it. -/
theorem field {object : Expr} {name : Ident}
    (h : Phrase (.expr (.field span object name)) d before after) :
    ∃ k, k.SpellsKey name.name ∧
      Phrase (.expr object) d before (.mark (.symbol .dot) :: k :: after) := by
  obtain ⟨hWritten, hShaped, hShallow⟩ := h
  obtain ⟨_, hObject, hRest⟩ := LeavesTokens.append hWritten
  obtain ⟨_, rfl, hName⟩ := hRest.token
  obtain ⟨k, _, rfl, hKey, hEnd⟩ := hName.key
  obtain rfl := hEnd.of_nil
  exact ⟨k, hKey, hObject, hShaped.part (by simp [Node.parts, Expr.parts]), hShallow⟩

/-- The phrase of an index is that of the object and, between brackets, that of the index one
deeper. -/
theorem index {object index : Expr}
    (h : Phrase (.expr (.index span object index)) d before after) :
    ∃ middle, Phrase (.expr object) d before (.mark (.symbol .leftBracket) :: middle) ∧
      Phrase (.expr index) (d + 1) middle (.mark (.symbol .rightBracket) :: after) := by
  obtain ⟨hWritten, hShaped, hShallow⟩ := h
  change d + max object.nesting (index.nesting + 1) ≤ _ at hShallow
  obtain ⟨_, hObject, hRest⟩ := LeavesTokens.append hWritten
  obtain ⟨middle, rfl, hInside⟩ := hRest.token
  obtain ⟨_, hIndex, hClose⟩ := hInside.append
  obtain rfl := hClose.single
  refine ⟨middle, ⟨hObject, hShaped.part (by simp [Node.parts, Expr.parts]), ?_⟩,
    ⟨hIndex, hShaped.part (by simp [Node.parts, Expr.parts]), ?_⟩⟩
  · change d + object.nesting ≤ _
    omega
  · change d + 1 + index.nesting ≤ _
    omega

/-- The phrase of a call is that of what is called and, between parentheses, its arguments. -/
theorem call {callee : Expr} {args : List (Option Ident × Expr)}
    (h : Phrase (.expr (.call span callee args)) d before after) :
    ∃ middle, Phrase (.expr callee) d before (.mark (.symbol .leftParen) :: middle) ∧
      LeavesTokens (argsWritten line args) middle (.mark (.symbol .rightParen) :: after) := by
  obtain ⟨hWritten, hShaped, hShallow⟩ := h
  change d + max callee.nesting (argsNesting args) ≤ _ at hShallow
  obtain ⟨_, hCallee, hRest⟩ := LeavesTokens.append hWritten
  obtain ⟨middle, rfl, hInside⟩ := hRest.token
  obtain ⟨_, hArgs, hClose⟩ := hInside.append
  obtain rfl := hClose.single
  refine ⟨middle, ⟨hCallee, hShaped.part (by simp [Node.parts, Expr.parts]), ?_⟩, hArgs⟩
  change d + callee.nesting ≤ _
  omega

end Phrase

def TokenKind.opensExpr : TokenKind → Bool
  | .int _ | .float _ | .text _ | .textStart _ | .name _ => true
  | .mark (.keyword k) => k ∈ [.trueWord, .falseWord, .nilWord, .fnWord, .notWord]
  | .mark (.symbol s) => s ∈ [.minus, .leftParen, .leftBracket, .leftBrace]
  | _ => false

/-- The tokens start as an expression does. -/
structure OpensExpression (e : Expr) (k : TokenKind) (rest : List TokenKind) : Prop where
  opens : k.opensExpr = true
  /-- Only an operator in front of an operand stands before everything else. -/
  plain : 6 ≤ e.strength → k ≠ .mark (.keyword .notWord) ∧ k ≠ .mark (.symbol .minus)
  /-- A function without a name. -/
  unnamed : k = .mark (.keyword .fnWord) → firstKind rest = .mark (.symbol .leftParen)
  /-- A name is no name of an argument. -/
  noColon : ∀ n, k = .name n → firstKind rest ≠ .mark (.symbol .colon)

/-- An expression whose first token says what it is. -/
theorem opensExpression_leaf {e : Expr} {k : TokenKind} {rest : List TokenKind}
    (h : k.opensExpr = true)
    (hNot : k ≠ .mark (.keyword .notWord)) (hMinus : k ≠ .mark (.symbol .minus))
    (hFn : k ≠ .mark (.keyword .fnWord)) (hName : ∀ n, k ≠ .name n) : OpensExpression e k rest :=
  ⟨h, fun _ => ⟨hNot, hMinus⟩, fun hKind => (hFn hKind).elim, fun n hKind => (hName n hKind).elim⟩

/-- With which tokens an expression starts, if no colon comes after it. -/
theorem Phrase.opensExpression {e : Expr} {d : Nat} {before after : List TokenKind}
    (h : Phrase (.expr e) d before after) (hAfter : firstKind after ≠ .mark (.symbol .colon)) :
    ∃ k rest, before = k :: rest ∧ OpensExpression e k rest := by
  match e with
  | .binary span op left right =>
      obtain ⟨k, middle, hOp, hLeft, -⟩ := h.binary
      have hColon : firstKind (k :: middle) ≠ .mark (.symbol .colon) := by
        rintro rfl
        cases op <;> cases hOp
      obtain ⟨k', rest, rfl, hOpens⟩ := hLeft.opensExpression hColon
      refine ⟨k', rest, rfl, hOpens.opens, fun hStrong => ?_, hOpens.unnamed, hOpens.noColon⟩
      cases op <;> simp [Expr.strength, BinaryOp.strength] at hStrong
  | .call span callee args =>
      obtain ⟨middle, hCallee, -⟩ := h.call
      obtain ⟨k, rest, rfl, hOpens⟩ := hCallee.opensExpression (by simp)
      exact ⟨k, rest, rfl, hOpens.opens,
        fun _ => hOpens.plain h.shaped.fitsGrammar.1, hOpens.unnamed,
        hOpens.noColon⟩
  | .field span object name =>
      obtain ⟨k', -, hObject⟩ := h.field
      obtain ⟨k, rest, rfl, hOpens⟩ := hObject.opensExpression (by simp)
      exact ⟨k, rest, rfl, hOpens.opens, fun _ => hOpens.plain h.shaped.fitsGrammar, hOpens.unnamed,
        hOpens.noColon⟩
  | .index span object index =>
      obtain ⟨middle, hObject, -⟩ := h.index
      obtain ⟨k, rest, rfl, hOpens⟩ := hObject.opensExpression (by simp)
      exact ⟨k, rest, rfl, hOpens.opens, fun _ => hOpens.plain h.shaped.fitsGrammar, hOpens.unnamed,
        hOpens.noColon⟩
  | .unary span op operand =>
      obtain ⟨k, rest, hOp, rfl, -⟩ := h.unary
      refine ⟨k, rest, rfl, ?_, fun hStrong => absurd hStrong (by simp [Expr.strength]), ?_, ?_⟩
      · cases op <;> cases hOp <;> rfl
      · rintro rfl
        cases op <;> cases hOp
      · rintro n rfl
        cases op <;> cases hOp
  | .name span s =>
      obtain rfl := LeavesTokens.single h.written
      exact ⟨_, _, rfl, rfl, fun _ => ⟨nofun, nofun⟩, nofun, fun n _ => hAfter⟩
  | .lambda (.mk span name params body) =>
      obtain rfl : name = none := h.shaped.fitsGrammar
      obtain ⟨rest, rfl, hRest⟩ := LeavesTokens.token h.written
      obtain ⟨rest', rfl, -⟩ := LeavesTokens.token hRest
      exact ⟨_, _, rfl, rfl, fun _ => ⟨nofun, nofun⟩, fun _ => rfl, nofun⟩
  | .int .. | .float .. | .text .. | .nil .. | .bool _ true | .bool _ false | .list .. | .record ..
  | .paren .. =>
      obtain ⟨rest, rfl, -⟩ := LeavesTokens.token h.written
      exact ⟨_, rest, rfl, opensExpression_leaf rfl nofun nofun nofun nofun⟩
  | .interpolation _ parts =>
      obtain ⟨s, hText⟩ : ∃ s, Written.textBefore parts = .token (.textStart s) := by
        unfold Written.textBefore
        split <;> exact ⟨_, rfl⟩
      have hWritten : LeavesTokens (Written.textBefore parts :: holesWritten line parts)
          before after := h.written
      rw [hText] at hWritten
      obtain ⟨rest, rfl, -⟩ := hWritten.token
      exact ⟨_, rest, rfl, opensExpression_leaf rfl nofun nofun nofun nofun⟩

/-- The tokens go on with nothing that belongs to an expression of this strength. -/
structure StopsExpression (strength : Nat) (ks : List TokenKind) : Prop where
  noField : firstKind ks ≠ .mark (.symbol .dot)
  noCall : firstKind ks ≠ .mark (.symbol .leftParen)
  noIndex : firstKind ks ≠ .mark (.symbol .leftBracket)
  noColon : firstKind ks ≠ .mark (.symbol .colon)
  noOperator : ∀ op : BinaryOp, strength ≤ op.strength → op.written ≠ .token (firstKind ks)

theorem StopsExpression.mono {strength more : Nat} {ks : List TokenKind}
    (h : StopsExpression strength ks)
    (hMore : strength ≤ more) : StopsExpression more ks :=
  { h with noOperator := fun op hOp => h.noOperator op (Nat.le_trans hMore hOp) }

def TokenKind.closesExpr : TokenKind → Bool
  | .mark (.symbol s) => s ∈ [.comma, .rightParen, .rightBracket, .rightBrace, .leftBrace, .assign]
  | .mark .newline | .mark .holeEnd => true
  | _ => false

/-- A token that may close an expression stops expressions of every strength. -/
theorem StopsExpression.of_closes {ks : List TokenKind} (h : (firstKind ks).closesExpr = true)
    (strength : Nat) : StopsExpression strength ks := by
  refine ⟨?_, ?_, ?_, ?_, fun op _ hOp => ?_⟩
  iterate 4
    intro hKind
    rw [hKind] at h
    cases h
  cases op <;> rw [← Written.token.inj hOp] at h <;> cases h

/-- Behind a left operand comes its operator, which belongs to nothing stronger. -/
theorem StopsExpression.of_operator {op : BinaryOp} {k : TokenKind} (hOp : op.written = .token k)
    {strength : Nat} (hStrength : op.strength < strength) (ks : List TokenKind) :
    StopsExpression strength (k :: ks) := by
  refine ⟨?_, ?_, ?_, ?_, fun other hOther hSame => ?_⟩
  iterate 4
    rintro rfl
    cases op <;> cases hOp
  obtain rfl : other = op := BinaryOp.written_injective (hSame.trans hOp.symm)
  omega

end Metagen.Script
