import Metagen.Proofs.Script.Accepted
import Metagen.Proofs.Script.Phrases

/-! Expressions of the shape that the grammar asks for are read back from the tokens they are
written with, by whatever rules read the expressions, the functions and the blocks inside them. -/

namespace Metagen.Script

open Grammar

/-- The rule reads every expression that holds together as strong as said, in front of what does not
belong to it, if fewer tokens than said are left. It enters so many levels of nesting. -/
def TakesExpr (entered strength bound : Nat) (rule : Rule Expr) : Prop :=
  ∀ ⦃e : Expr⦄ ⦃d : Nat⦄ ⦃before after : List TokenKind⦄,
    Phrase (.expr e) (d + entered) before after → strength ≤ e.strength →
      StopsExpression strength after →
      before.length < bound → TakesTokens d before after (·.bare = e.bare) rule

/-- The operators of one strength are among these. -/
def OperatorsCover (operators : Operators) (strength : Nat) : Prop :=
  ∀ op k, op.strength = strength → op.written = .token k → operators k = some op

theorem operatorsCover_or : OperatorsCover orOperator 0 := by
  intro op k hStrength hOp
  cases op <;> cases hStrength
  cases hOp
  rfl

theorem operatorsCover_and : OperatorsCover andOperator 1 := by
  intro op k hStrength hOp
  cases op <;> cases hStrength
  cases hOp
  rfl

theorem operatorsCover_comparison : OperatorsCover comparison 2 := by
  intro op k hStrength hOp
  cases op <;> cases hStrength <;> cases hOp <;> rfl

theorem operatorsCover_sum : OperatorsCover sumOperator 3 := by
  intro op k hStrength hOp
  cases op <;> cases hStrength <;> cases hOp <;> rfl

theorem operatorsCover_product : OperatorsCover productOperator 4 := by
  intro op k hStrength hOp
  cases op <;> cases hStrength <;> cases hOp <;> rfl

/-- No operator of this strength stands where an expression of the strength stops. -/
theorem StopsExpression.operators_none {operators : Operators} {strength : Nat}
    {ks : List TokenKind}
    (h : StopsExpression strength ks) (hOperators : OperatorsFit operators strength) :
    operators (firstKind ks) = none := by
  cases hOperator : operators (firstKind ks) with
  | none => rfl
  | some op =>
      obtain ⟨hStrength, hOp⟩ := hOperators _ _ hOperator
      exact (h.noOperator op (Nat.le_of_eq hStrength.symm) hOp).elim

theorem TokenKind.ne_of_opensExpr {k k' : TokenKind} (h : k.opensExpr = true)
    (hOther : k'.opensExpr = false) : k ≠ k' := by
  rintro rfl
  rw [h] at hOther
  cases hOther

/-- An expression does not start with a token that none starts with. -/
theorem Phrase.firstKind_ne_of_stopsExpression {e : Expr} {d strength : Nat}
    {before after : List TokenKind}
    {k : TokenKind} (h : Phrase (.expr e) d before after) (hStops : StopsExpression strength after)
    (hKind : k.opensExpr = false) : firstKind before ≠ k := by
  obtain ⟨_, rest, rfl, hOpens⟩ := h.opensExpression hStops.noColon
  exact TokenKind.ne_of_opensExpr hOpens.opens hKind

/-- An expression whose operator is of the strength, if it is not stronger. -/
theorem Expr.exists_binary {e : Expr} (h : e.strength < 5) :
    ∃ span op left right, e = .binary span op left right := by
  cases e with
  | binary span op left right => exact ⟨span, op, left, right, rfl⟩
  | _ => exact absurd h (by simp [Expr.strength])

namespace TakesExpr

variable {bound : Nat}

section

variable {strength : Nat} {operand : Rule Expr} {operators : Operators}

/-- Operands are joined up to where the expression ends, and then joining goes on from there. -/
theorem joining (hOperand : TakesExpr 0 (strength + 1) bound operand)
    (hOperators : OperatorsCover operators strength) (hLeft : strength ≠ 2) (hWeak : strength < 5)
    (crossing : Bool) {e : Expr} {d : Nat} {before middle after : List TokenKind}
    {good : Expr → Prop} (h : Phrase (.expr e) d before middle) (hStrong : strength ≤ e.strength)
    (hStops : StopsExpression (strength + 1) middle) (hBound : before.length < bound)
    (hMore : ∀ left fuel, left.bare = e.bare → middle.length < fuel →
      TakesTokens d middle after good (Grammar.moreOperands operators crossing operand fuel left)) :
    TakesTokens d before after good (Grammar.leftJoined operators crossing operand) := by
  by_cases hSingle : strength + 1 ≤ e.strength
  · refine (hOperand h hSingle hStops hBound).bind fun left hSame => ?_
    exact .bindRounds fun n hn => hMore left n hSame hn
  · match e with
    | .binary span op left right =>
        have hOp : op.strength = strength := by
          have hAtLeast : strength ≤ op.strength := hStrong
          have hAtMost : ¬ strength + 1 ≤ op.strength := hSingle
          omega
        have hFits : op.leftStrength ≤ left.strength ∧ op.strength < right.strength :=
          h.shaped.fitsGrammar
        obtain ⟨k, rest, hToken, hBefore, hRight⟩ := h.binary
        have hLess := hBefore.written.length_le
        have hLonger := hRight.written.length_le
        rw [List.length_cons] at hLess
        refine joining hOperand hOperators hLeft hWeak crossing hBefore ?_
          (.of_operator hToken (by omega) rest) hBound fun first fuel hFirst hFuel => ?_
        · rw [BinaryOp.leftStrength, if_neg (by omega), hOp] at hFits
          exact hFits.1
        · cases fuel with
          | zero => cases hFuel
          | succ fuel =>
              rw [List.length_cons] at hFuel
              have hJoined : TakesTokens d rest after good (do
                  let second ← operand
                  Grammar.moreOperands operators crossing operand fuel
                    (joined first op second)) := by
                refine (hOperand hRight (by omega) hStops (by omega)).bind fun second hSecond => ?_
                refine hMore _ _ ?_ (by omega)
                simp [joined, Expr.bare, hFirst, hSecond]
              refine .bindPeek ?_
              rw [firstKind_cons, hOperators op k hOp hToken]
              refine .bindDiscard ?_
              split
              · exact .bindSkipNone (hRight.firstKind_ne_of_stopsExpression hStops rfl) hJoined
              · exact hJoined
    | .unary .. => exact absurd hSingle (by simp [Expr.strength]; omega)
    | .int .. | .float .. | .text .. | .interpolation .. | .bool .. | .nil .. | .list ..
    | .record .. | .name .. | .call .. | .field .. | .index .. | .lambda .. | .paren .. =>
        exact absurd hSingle (by simp [Expr.strength]; omega)

/-- Operators of one strength are read back from the left: the first operand may hold one of them,
the second may not. -/
theorem leftJoined (hOperand : TakesExpr 0 (strength + 1) bound operand)
    (hOperators : OperatorsCover operators strength) (hOnly : OperatorsFit operators strength)
    (hLeft : strength ≠ 2) (hWeak : strength < 5) (crossing : Bool) :
    TakesExpr 0 strength bound (Grammar.leftJoined operators crossing operand) := by
  intro e d before after h hStrong hStops hBound
  refine joining hOperand hOperators hLeft hWeak crossing h hStrong (hStops.mono (Nat.le_succ _))
    hBound fun left fuel hSame hFuel => ?_
  cases fuel with
  | zero => cases hFuel
  | succ fuel =>
      refine .bindPeek ?_
      rw [hStops.operators_none hOnly]
      exact .pure hSame

/-- A comparison is read back: none of its operands is one. -/
theorem compared (hOperand : TakesExpr 0 3 bound operand) :
    TakesExpr 0 2 bound (Grammar.compared operand) := by
  intro e d before after h hStrong hStops hBound
  have hNone := hStops.operators_none operatorsFit_comparison
  by_cases hSingle : 3 ≤ e.strength
  · refine (hOperand h hSingle (hStops.mono (by omega)) hBound).bind fun left hSame => ?_
    refine .bindPeek ?_
    rw [hNone]
    exact .pure hSame
  · obtain ⟨span, op, left, right, rfl⟩ := Expr.exists_binary (show e.strength < 5 by omega)
    have hOp : op.strength = 2 := by
      have hAtLeast : 2 ≤ op.strength := hStrong
      have hAtMost : ¬ 3 ≤ op.strength := hSingle
      omega
    have hFits : op.leftStrength ≤ left.strength ∧ op.strength < right.strength :=
      h.shaped.fitsGrammar
    rw [BinaryOp.leftStrength, if_pos hOp] at hFits
    obtain ⟨k, rest, hToken, hLeft, hRight⟩ := h.binary
    have hLess := hLeft.written.length_le
    rw [List.length_cons] at hLess
    refine (hOperand hLeft hFits.1 (.of_operator hToken (by omega) rest) hBound).bind
      fun first hFirst => .bindPeek ?_
    rw [firstKind_cons, operatorsCover_comparison op k hOp hToken]
    refine .bindDiscard ?_
    refine (hOperand hRight (by omega) (hStops.mono (by omega)) (by omega)).bind
      fun second hSecond => .bindPeek ?_
    rw [hNone]
    refine .iteNeg (by simp) (.pure ?_)
    simp [joined, Expr.bare, hFirst, hSecond]

end

/-- Operands of all strengths are read back, as each strength is left to a rule of its own. -/
theorem operators {operand : Rule Expr} (hOperand : TakesExpr 0 5 bound operand) :
    TakesExpr 0 0 bound (Grammar.operators operand) := by
  refine leftJoined (leftJoined (compared ?_) operatorsCover_and operatorsFit_and (by simp)
    (by simp) true) operatorsCover_or operatorsFit_or (by simp) (by simp) true
  exact leftJoined (leftJoined hOperand operatorsCover_product operatorsFit_product (by simp)
    (by simp) false) operatorsCover_sum operatorsFit_sum (by simp) (by simp) false

/-- An operator in front is read back with its operand, which may start with another one. -/
theorem unaryOf {unary postfixed : Rule Expr} (hUnary : TakesExpr 0 5 (bound - 1) unary)
    (hPostfixed : TakesExpr 0 6 bound postfixed) :
    TakesExpr 0 5 bound (Grammar.unaryOf unary postfixed) := by
  intro e d before after h hStrong hStops hBound
  refine .bindCurrentSpan fun start => .bindPeek ?_
  by_cases hPlain : 6 ≤ e.strength
  · obtain ⟨k, rest, rfl, hOpens⟩ := h.opensExpression hStops.noColon
    obtain ⟨hNot, hMinus⟩ := hOpens.plain hPlain
    rw [firstKind_cons]
    split
    · exact (hNot rfl).elim
    · exact (hMinus rfl).elim
    · exact hPostfixed h hPlain (hStops.mono (by omega)) hBound
  · match e with
    | .unary span op operand =>
        have hFits : 5 ≤ operand.strength := h.shaped.fitsGrammar
        obtain ⟨k, rest, hToken, rfl, hRest⟩ := h.unary
        rw [List.length_cons] at hBound
        have hOperand := hUnary hRest hFits hStops (by omega)
        cases op with
        | neg =>
            cases hToken
            refine .bindDiscard (hOperand.bind fun inner hSame => .pure ?_)
            simp [Expr.bare, hSame]
        | not =>
            cases hToken
            refine .bindDiscard (hOperand.bind fun inner hSame => .pure ?_)
            simp [Expr.bare, hSame]
    | .binary span op left right =>
        cases op <;> exact absurd hStrong (by simp [Expr.strength, BinaryOp.strength])
    | .int .. | .float .. | .text .. | .interpolation .. | .bool .. | .nil .. | .list ..
    | .record .. | .name .. | .call .. | .field .. | .index .. | .lambda .. | .paren .. =>
        exact absurd hPlain (by simp [Expr.strength])

end TakesExpr

/-- The rule reads each of these items, up to ranges, if it knows those before it. No item starts
with a line end or with the closing symbol. -/
def TakesItems {Item Bare : Type} (bare : Item → Bare) (write : Item → List Written)
    (close : Symbol) (items : List Item) (depth bound : Nat) (rule : List Item → Rule Item) :
    Prop :=
  ∀ found done item later, found.map bare = done.map bare → items = done ++ item :: later →
    ∀ before after, LeavesTokens (write item) before after → (firstKind after).closesExpr = true →
      before.length < bound → firstKind before ≠ .mark .newline ∧
        firstKind before ≠ .mark (.symbol close) ∧
        TakesTokens depth before after (fun next => bare next = bare item) (rule found)

namespace TakesTokens

variable {Item Bare : Type} {bare : Item → Bare} {write : Item → List Written} {close : Symbol}
  {items : List Item} {d bound : Nat} {rule : List Item → Rule Item} {before after : List TokenKind}

/-- The items from one on are read, each with the comma behind it. -/
theorem separated (hRule : TakesItems bare write close items d bound rule)
    (hClose : (TokenKind.mark (.symbol close)).closesExpr = true) (hComma : close ≠ .comma)
    (later done found : List Item) (hFound : found.map bare = done.map bare)
    (hItems : items = done ++ later)
    (h : LeavesTokens (Written.joined write later) before (.mark (.symbol close) :: after))
    (hBound : before.length < bound) :
    firstKind before ≠ .mark .newline ∧ ∀ fuel, before.length < fuel →
      TakesTokens d before (.mark (.symbol close) :: after)
        (fun result => result.map bare = items.map bare)
        (Rule.separated (.symbol close) rule fuel found) := by
  induction later generalizing done found before with
  | nil =>
      obtain rfl := h.of_nil
      refine ⟨by simp, fun fuel hFuel => ?_⟩
      cases fuel with
      | zero => cases hFuel
      | succ fuel =>
          refine .bindAt ?_
          rw [firstKind_cons, if_pos (by simp)]
          exact .pure (by rw [hFound, hItems, List.append_nil])
  | cons item more ih =>
      obtain ⟨middle, hItem, hRest⟩ := h.append
      have hRead := hRule found done item more hFound hItems before middle hItem
      have hLess := hItem.length_le
      -- Behind the item comes a comma with the other items, or the closing symbol.
      obtain ⟨rest, rfl, hMore⟩ | ⟨rfl, rfl⟩ :
          (∃ rest, middle = .mark (.symbol .comma) :: rest ∧
            LeavesTokens (Written.joined write more) rest (.mark (.symbol close) :: after)) ∨
          more = [] ∧ middle = .mark (.symbol close) :: after := by
        cases more with
        | nil =>
            rcases hRest.comma with ⟨rest, rfl, hMore⟩ | hNone
            · exact .inl ⟨rest, rfl, hMore⟩
            · exact .inr ⟨rfl, hNone.of_nil⟩
        | cons next others => exact .inl hRest.token
      · obtain ⟨hLine, hOpen, hTakes⟩ := hRead rfl hBound
        refine ⟨hLine, fun fuel hFuel => ?_⟩
        cases fuel with
        | zero => cases hFuel
        | succ fuel =>
            rw [List.length_cons] at hLess
            refine .bindAt (.iteNeg (by simpa using hOpen) (hTakes.bind fun next hNext => ?_))
            refine .bindSkipNone (by simp) (.bindEat ?_)
            obtain ⟨hNoLine, hOthers⟩ := ih (done ++ [item]) (found ++ [next])
              (by simp [hFound, hNext]) (by simp [hItems]) hMore (by omega)
            exact .bindSkipNone hNoLine (hOthers fuel (by omega))
      · obtain ⟨hLine, hOpen, hTakes⟩ := hRead hClose hBound
        refine ⟨hLine, fun fuel hFuel => ?_⟩
        cases fuel with
        | zero => cases hFuel
        | succ fuel =>
            refine .bindAt (.iteNeg (by simpa using hOpen) (hTakes.bind fun next hNext => ?_))
            refine .bindSkipNone (by simp) (.bindEatNone (by simpa using hComma) (.pure ?_))
            simp [hFound, hNext, hItems]

/-- Items between commas are read with the symbol behind them. -/
theorem separatedUpTo (hRule : TakesItems bare write close items d bound rule)
    (hClose : (TokenKind.mark (.symbol close)).closesExpr = true) (hComma : close ≠ .comma)
    (h : LeavesTokens (Written.joined write items) before (.mark (.symbol close) :: after))
    (hBound : before.length < bound) :
    TakesTokens d before after (fun result => result.map bare = items.map bare)
      (Rule.separatedUpTo (.symbol close) rule) := by
  obtain ⟨hLine, hSeparated⟩ := separated hRule hClose hComma items [] [] rfl rfl h hBound
  refine .bindSkipNone hLine (.bindRounds fun n hn => ?_)
  exact (hSeparated n hn).bind fun result hSame => .bindExpect (.pure hSame)

end TakesTokens

/-- A problem that is reported only if there is one. -/
theorem TakesTokens.problemIf {Result : Type} {d : Nat} {before after : List TokenKind}
    {good : Result → Prop} {p : Prop} [Decidable p] {code : ErrorCode} {message : String}
    {span : Span} {rest : Rule Result} (hp : ¬ p) (h : TakesTokens d before after good rest) :
    TakesTokens d before after good (do
      if p then Rule.problemAt code message span
      rest) := by rwa [if_neg hp]

section

variable {bound d : Nat} {expression : Rule Expr}

/-- An expression in front of a token that closes it. -/
theorem TakesExpr.inside {e : Expr} {before after : List TokenKind}
    (hExpression : TakesExpr 1 0 bound expression) (h : Phrase (.expr e) (d + 1) before after)
    (hAfter : (firstKind after).closesExpr = true) (hBound : before.length < bound) :
    TakesTokens d before after (·.bare = e.bare) expression :=
  hExpression h (Nat.zero_le _) (.of_closes hAfter 0) hBound

theorem Phrase.firstKind_ne {e : Expr} {before after : List TokenKind} {k : TokenKind}
    (h : Phrase (.expr e) d before after) (hAfter : (firstKind after).closesExpr = true)
    (hKind : k.opensExpr = false) : firstKind before ≠ k :=
  h.firstKind_ne_of_stopsExpression (.of_closes hAfter 0) hKind

/-- Items of a list are read back between commas. -/
theorem takesItems_items (hExpression : TakesExpr 1 0 bound expression) {items : List Expr}
    (hShaped : ∀ item ∈ items, (Node.expr item).Shaped)
    (hShallow : d + itemsNesting items ≤ maxDepth) :
    TakesItems Expr.bare (·.written line) .rightBracket items d bound fun _ => expression := by
  intro found done item later hFound hItems before after hWritten hAfter hBound
  have hMem : item ∈ items := by simp [hItems]
  have hLess := nesting_lt_of_item hMem
  have hPhrase : Phrase (.expr item) (d + 1) before after := by
    refine ⟨hWritten, hShaped item hMem, ?_⟩
    change d + 1 + item.nesting ≤ _
    omega
  exact ⟨hPhrase.firstKind_ne hAfter rfl, hPhrase.firstKind_ne hAfter rfl,
    hExpression.inside hPhrase hAfter hBound⟩

/-- A value in front of which no name stands. -/
theorem takesTokens_argumentName_none {e : Expr} {before after : List TokenKind}
    (h : Phrase (.expr e) (d + 1) before after) (hAfter : (firstKind after).closesExpr = true) :
    TakesTokens d before before (· = none) argumentName := by
  obtain ⟨k, rest, rfl, hOpens⟩ := h.opensExpression (StopsExpression.of_closes hAfter 0).noColon
  refine .bindPeek (.bindPeekNext ?_)
  split
  next n hKind hNext => exact (hOpens.noColon _ hKind hNext).elim
  next => exact .pure rfl

/-- The name of an argument is read back if a colon follows it on the same line. -/
theorem takesTokens_argumentName_some {name : Ident} {rest : List TokenKind}
    (hLine : firstKind rest ≠ .mark .newline) :
    TakesTokens d (.name name.name :: .mark (.symbol .colon) :: rest) rest
      (fun name? => name?.map Ident.bare = some name.bare) argumentName := by
  refine .bindPeek (.bindPeekNext (.bindName fun span => .bindDiscard ?_))
  exact .bindSkipNone hLine (.pure rfl)

/-- Names are the same where arguments are the same up to ranges. -/
theorem any_name_eq {found args : List (Option Ident × Expr)}
    (h : found.map bareArg = args.map bareArg) (p : Option String → Bool) :
    found.any (fun arg => p (arg.1.map (·.name))) =
      args.any (fun arg => p (arg.1.map (·.name))) := by
  have hAny := congrArg (·.any fun arg => p (arg.1.map (·.name))) h
  simpa [List.any_map, Function.comp_def, bareArg, Ident.bare] using hAny

/-- Arguments are read back between commas, the positional ones first and each name once. -/
theorem takesItems_args (hExpression : TakesExpr 1 0 bound expression)
    {args : List (Option Ident × Expr)} (hShaped : ∀ arg ∈ args, (Node.expr arg.2).Shaped)
    (hShallow : d + argsNesting args ≤ maxDepth)
    (hNames : ((args.filterMap (·.1)).map (·.name)).Nodup) (hFirst : PositionalFirst args) :
    TakesItems bareArg (fun arg => Written.argumentName arg.1 ++ arg.2.written line) .rightParen
      args d bound (argument expression) := by
  rintro found done ⟨name, value⟩ later hFound hArgs before after hWritten hAfter hBound
  have hMem : (name, value) ∈ args := by simp [hArgs]
  have hLess : value.nesting < argsNesting args := nesting_lt_of_arg hMem
  have hPhrase : ∀ middle, LeavesTokens (value.written line) middle after →
      Phrase (.expr value) (d + 1) middle after := by
    refine fun middle hValue => ⟨hValue, hShaped _ hMem, ?_⟩
    change d + 1 + value.nesting ≤ _
    omega
  cases name with
  | none =>
      have hValue := hPhrase before hWritten
      refine ⟨hValue.firstKind_ne hAfter rfl, hValue.firstKind_ne hAfter rfl, ?_⟩
      refine (takesTokens_argumentName_none hValue hAfter).bind ?_
      rintro _ rfl
      refine (hExpression.inside hValue hAfter hBound).bind fun next hNext => ?_
      refine .problemIf ?_ (.pure (by simp [bareArg, hNext]))
      have hSome := any_name_eq hFound (·.isSome)
      simp only [Option.isSome_map] at hSome
      rw [hSome, List.any_eq_true]
      rintro ⟨arg, hArg, hNamed⟩
      rw [hArgs] at hFirst
      have hLater := (List.pairwise_append.1 hFirst).2.2 arg hArg (none, value) (by simp) hNamed
      cases hLater
  | some n =>
      obtain ⟨rest, rfl, hColon⟩ := LeavesTokens.token hWritten
      obtain ⟨middle, rfl, hValue⟩ := LeavesTokens.token hColon
      have hValue := hPhrase middle hValue
      refine ⟨by simp, by simp, ?_⟩
      simp only [List.length_cons] at hBound
      refine (takesTokens_argumentName_some (hValue.firstKind_ne hAfter rfl)).bind
        fun name? hName => ?_
      refine (hExpression.inside hValue hAfter (by omega)).bind fun next hNext => ?_
      obtain ⟨m, rfl, hSame⟩ := Option.map_eq_some_iff.1 hName
      have hSameName : m.bare.name = n.bare.name := congrArg Ident.name hSame
      refine .problemIf ?_ (.pure (by simp [bareArg, hNext, hSame]))
      have hTwice := any_name_eq hFound (·.any (· == m.name))
      simp only [Option.any_map] at hTwice
      rw [hTwice, List.any_eq_true]
      rintro ⟨arg, hArg, hGiven⟩
      obtain ⟨other, hOther, hEq⟩ := (Option.any_eq_true _ _).1 hGiven
      rw [hArgs, List.filterMap_append, List.map_append, List.nodup_append] at hNames
      refine hNames.2.2 other.name ?_ n.name (by simp) ?_
      · exact List.mem_map_of_mem (List.mem_filterMap.2 ⟨arg, hArg, hOther⟩)
      · have hThere : other.name = m.name := by simpa using hEq
        exact hThere.trans hSameName

/-- Fields of a record are read back between commas, each key once. -/
theorem takesItems_fields (hExpression : TakesExpr 1 0 bound expression)
    {fields : List (Ident × Expr)} (hShaped : ∀ field ∈ fields, (Node.expr field.2).Shaped)
    (hShallow : d + fieldsNesting fields ≤ maxDepth)
    (hKeys : (fields.map (·.1.name)).Nodup) :
    TakesItems bareField
      (fun field => .key field.1.name :: .symbol .colon :: field.2.written line) .rightBrace
      fields d bound (recordField expression) := by
  rintro found done ⟨key, value⟩ later hFound hFields before after hWritten hAfter hBound
  have hMem : (key, value) ∈ fields := by simp [hFields]
  have hLess : value.nesting < fieldsNesting fields := nesting_lt_of_field hMem
  obtain ⟨k, rest, rfl, hKey, hColon⟩ := LeavesTokens.key hWritten
  obtain ⟨middle, rfl, hValue⟩ := hColon.token
  have hPhrase : Phrase (.expr value) (d + 1) middle after := by
    refine ⟨hValue, hShaped _ hMem, ?_⟩
    change d + 1 + value.nesting ≤ _
    omega
  refine ⟨by rintro rfl; exact hKey, by rintro rfl; exact hKey, .bindKey hKey fun span => ?_⟩
  simp only [List.length_cons] at hBound
  refine .problemIf ?_ (.bindExpect (.bindSkipNone (hPhrase.firstKind_ne hAfter rfl) ?_))
  · have hTwice : found.any (·.1.name == key.name) = done.any (·.1.name == key.name) := by
      have hAny := congrArg (·.any fun field => field.1.name == key.name) hFound
      simpa [List.any_map, Function.comp_def, bareField, Ident.bare] using hAny
    rw [hTwice, List.any_eq_true]
    rintro ⟨field, hField, hGiven⟩
    rw [hFields, List.map_append, List.nodup_append] at hKeys
    exact hKeys.2.2 field.1.name (List.mem_map_of_mem hField) key.name (by simp)
      (by simpa using hGiven)
  · refine (hExpression.inside hPhrase hAfter (by omega)).bind fun next hNext => .pure ?_
    simp [bareField, Ident.bare, hNext]

end

/-- Parameters are read back between commas, each name once. -/
theorem takesItems_params {params : List Ident} {d : Nat} (hNames : (params.map (·.name)).Nodup)
    (bound : Nat) :
    TakesItems Ident.bare (fun p => [Written.name p]) .rightParen params d bound parameter := by
  intro found done p later hFound hParams before after hWritten _ _
  obtain rfl := hWritten.single
  refine ⟨by simp, by simp, .bindName fun span => .problemIf ?_ (.pure rfl)⟩
  have hTwice : found.any (·.name == p.name) = done.any (·.name == p.name) := by
    have hAny := congrArg (·.any fun other => other.name == p.name) hFound
    simpa [List.any_map, Function.comp_def, Ident.bare] using hAny
  rw [hTwice, List.any_eq_true]
  rintro ⟨other, hOther, hGiven⟩
  rw [hParams, List.map_append, List.nodup_append] at hNames
  exact hNames.2.2 other.name (List.mem_map_of_mem hOther) p.name (by simp) (by simpa using hGiven)

/-- An expression without operators, fields, calls and indexes outside of brackets. -/
def Expr.IsPrimary : Expr → Prop
  | binary .. | unary .. | call .. | field .. | index .. => False
  | _ => True

/-- The rule reads every primary expression, if fewer tokens than said are left. -/
def TakesPrimary (bound : Nat) (rule : Rule Expr) : Prop :=
  ∀ ⦃e : Expr⦄ ⦃d : Nat⦄ ⦃before after : List TokenKind⦄, Phrase (.expr e) d before after →
    e.IsPrimary → before.length < bound → TakesTokens d before after (·.bare = e.bare) rule

/-- The arguments of a call are read back between its parentheses. -/
theorem arguments {bound d : Nat} {expression : Rule Expr}
    (hExpression : TakesExpr 1 0 bound expression) {span : Span} {callee : Expr}
    {args : List (Option Ident × Expr)} {before middle after : List TokenKind}
    (h : Phrase (.expr (.call span callee args)) d before after)
    (hArgs : LeavesTokens (argsWritten line args) middle (.mark (.symbol .rightParen) :: after))
    (hBound : middle.length < bound) :
    TakesTokens d middle after (fun found => found.map bareArg = args.map bareArg)
      (Rule.separatedUpTo (.symbol .rightParen) (argument expression)) := by
  obtain ⟨-, hNames, hFirst⟩ := h.shaped.fitsGrammar
  have hShallow : d + max callee.nesting (argsNesting args) ≤ maxDepth := h.shallow
  rw [argsWritten_eq] at hArgs
  refine .separatedUpTo (takesItems_args hExpression (fun arg hArg => ?_) (by omega) hNames hFirst)
    rfl (by simp) hArgs hBound
  exact h.shaped.part (List.mem_cons_of_mem _ (List.mem_map_of_mem hArg))

namespace TakesExpr

variable {bound : Nat} {expression primary : Rule Expr}

/-- Fields, calls and indexes are read up to where the expression ends, and then reading goes on
from there. -/
theorem following (hExpression : TakesExpr 1 0 (bound - 1) expression)
    (hPrimary : TakesPrimary bound primary) {e : Expr} {d : Nat}
    {before middle after : List TokenKind} {good : Expr → Prop}
    (h : Phrase (.expr e) d before middle) (hStrong : 6 ≤ e.strength)
    (hBound : before.length < bound)
    (hMore : ∀ object fuel, object.bare = e.bare → middle.length < fuel →
      TakesTokens d middle after good (morePostfixes expression fuel object)) :
    TakesTokens d before after good (postfixesOf expression primary) := by
  match e with
  | .field span object name =>
      obtain ⟨k, hKey, hObject⟩ := h.field
      refine following hExpression hPrimary hObject h.shaped.fitsGrammar hBound
        fun first fuel hFirst hFuel => ?_
      cases fuel with
      | zero => cases hFuel
      | succ fuel =>
          simp only [List.length_cons] at hFuel
          refine .bindPeek (.bindDiscard (.bindKey hKey fun span => hMore _ _ ?_ (by omega)))
          simp [Expr.bare, hFirst, Ident.bare]
  | .call span callee args =>
      obtain ⟨rest, hCallee, hArgs⟩ := h.call
      have hLess := hCallee.written.length_le
      have hLonger := hArgs.length_le
      rw [List.length_cons] at hLess hLonger
      refine following hExpression hPrimary hCallee h.shaped.fitsGrammar.1 hBound
        fun first fuel hFirst hFuel => ?_
      cases fuel with
      | zero => cases hFuel
      | succ fuel =>
          rw [List.length_cons] at hFuel
          refine .bindPeek (.bindDiscard ?_)
          refine (arguments hExpression h hArgs (by omega)).bind fun found hFound => ?_
          refine .bindPreviousSpan fun span => hMore _ _ ?_ (by omega)
          simp [Expr.bare, hFirst, hFound]
  | .index span object index =>
      obtain ⟨rest, hObject, hIndex⟩ := h.index
      have hLess := hObject.written.length_le
      have hLonger := hIndex.written.length_le
      rw [List.length_cons] at hLess hLonger
      refine following hExpression hPrimary hObject h.shaped.fitsGrammar hBound
        fun first fuel hFirst hFuel => ?_
      cases fuel with
      | zero => cases hFuel
      | succ fuel =>
          rw [List.length_cons] at hFuel
          refine .bindPeek (.bindDiscard (.bindSkipNone (hIndex.firstKind_ne rfl rfl) ?_))
          refine (hExpression.inside hIndex rfl (by omega)).bind fun position hPosition => ?_
          refine .bindSkipNone (by simp) (.bindExpect (.bindPreviousSpan fun span => ?_))
          refine hMore _ _ ?_ (by omega)
          simp [Expr.bare, hFirst, hPosition]
  | .binary span op left right =>
      cases op <;> exact absurd hStrong (by simp [Expr.strength, BinaryOp.strength])
  | .unary .. => exact absurd hStrong (by simp [Expr.strength])
  | .int .. | .float .. | .text .. | .interpolation .. | .bool .. | .nil .. | .list ..
  | .record .. | .name .. | .lambda .. | .paren .. =>
      refine (hPrimary h trivial hBound).bind fun object hSame => .bindRounds fun n hn => ?_
      exact hMore object n hSame hn

/-- Fields, calls and indexes that follow an expression are read back, the innermost first. -/
theorem postfixesOf (hExpression : TakesExpr 1 0 (bound - 1) expression)
    (hPrimary : TakesPrimary bound primary) :
    TakesExpr 0 6 bound (Grammar.postfixesOf expression primary) := by
  intro e d before after h hStrong hStops hBound
  refine following hExpression hPrimary h hStrong hBound fun object fuel hSame hFuel => ?_
  cases fuel with
  | zero => cases hFuel
  | succ fuel =>
      refine .bindPeek ?_
      split
      next hDot => exact (hStops.noField hDot).elim
      next hParen => exact (hStops.noCall hParen).elim
      next hBracket => exact (hStops.noIndex hBracket).elim
      next => exact .pure hSame

end TakesExpr

/-- The parts of an interpolated string from one on, this deep in expressions. -/
structure HolesFit (depth : Nat) (parts : List (Part Expr)) : Prop where
  shaped : ∀ e, .hole e ∈ parts → (Node.expr e).Shaped
  shallow : depth + holesNesting parts ≤ maxDepth
  filled : ∀ value, .text value ∈ parts → value ≠ ""
  apart : parts.IsChain fun first second => first.hole?.isSome = true ∨ second.hole?.isSome = true

/-- The parts of a string behind its first one fit too. -/
theorem HolesFit.tail {d : Nat} {part : Part Expr} {parts : List (Part Expr)}
    (h : HolesFit d (part :: parts)) : HolesFit d parts := by
  refine ⟨fun e he => h.shaped e (List.mem_cons_of_mem _ he), ?_,
    fun value hValue => h.filled value (List.mem_cons_of_mem _ hValue), h.apart.tail⟩
  have hShallow := h.shallow
  cases part with
  | text value => exact hShallow
  | hole e =>
      change d + max (e.nesting + 1) (holesNesting parts) ≤ _ at hShallow
      omega

/-- What comes after a text is a hole. -/
theorem HolesFit.exists_hole {d : Nat} {value : String} {part : Part Expr}
    {parts : List (Part Expr)} (h : HolesFit d (.text value :: part :: parts)) :
    ∃ e, part = .hole e := by
  obtain ⟨hFirst | hSecond, -⟩ := List.isChain_cons_cons.1 h.apart
  · cases hFirst
  · cases part with
    | text other => cases hSecond
    | hole e => exact ⟨e, rfl⟩

theorem textPart_of_ne {value : String} (h : value ≠ "") : textPart value = [.text value] := by
  rw [textPart, if_neg]
  simpa using h

section

variable {bound d : Nat} {expression : Rule Expr}

/-- By induction over the parts: the holes of a string are read back with the texts between them. -/
theorem takesTokens_holes (hExpression : TakesExpr 1 0 bound expression) (fuel : Nat) {e : Expr}
    {more : List (Part Expr)} {before after : List TokenKind} (found : List (Part Expr))
    (hFit : HolesFit d (.hole e :: more))
    (h : LeavesTokens (holesWritten line (.hole e :: more)) before after)
    (hBound : before.length < bound)
    (hFuel : before.length < fuel) :
    TakesTokens d before after (fun parts => partsBare parts = partsBare (found ++ .hole e :: more))
      (holes expression fuel found) := by
  induction fuel generalizing e more before found with
  | zero => cases hFuel
  | succ fuel ih =>
      obtain ⟨b₁, rfl, hInside⟩ := h.token
      obtain ⟨_, hInner, hEnd⟩ := hInside.append
      obtain ⟨b₂, rfl, hText⟩ := hEnd.token
      have hPhrase : Phrase (.expr e) (d + 1) b₁ (.mark .holeEnd :: b₂) := by
        refine ⟨hInner, hFit.shaped e List.mem_cons_self, ?_⟩
        have hShallow : d + max (e.nesting + 1) (holesNesting more) ≤ _ := hFit.shallow
        change d + 1 + e.nesting ≤ _
        omega
      have hLess := hInner.length_le
      simp only [List.length_cons] at hBound hFuel hLess
      refine .bindExpect (.bindSkipNone (hPhrase.firstKind_ne rfl rfl) ?_)
      refine (hExpression.inside hPhrase rfl (by omega)).bind fun inner hSame => ?_
      refine .bindSkipNone (by simp) (.bindExpect (.bindPeek ?_))
      match more with
      | [] =>
          obtain rfl := hText.single
          refine .bindDiscard (.pure ?_)
          simp [partsBare_append, partsBare, textPart, hSame]
      | [.text value] =>
          obtain rfl := hText.single
          refine .bindDiscard (.pure ?_)
          rw [textPart_of_ne (hFit.filled value (by simp))]
          simp [partsBare_append, partsBare, hSame]
      | .text value :: part :: rest =>
          obtain ⟨next, rfl⟩ := hFit.tail.exists_hole
          obtain ⟨b₃, rfl, hRest⟩ := hText.token
          simp only [List.length_cons] at hLess
          refine .bindDiscard ((ih (found ++ .hole inner :: textPart value) hFit.tail.tail hRest
            (by omega) (by omega)).imp fun parts hParts => ?_)
          rw [hParts, textPart_of_ne (hFit.filled value (by simp))]
          simp [partsBare_append, partsBare, hSame]
      | .hole next :: rest =>
          obtain ⟨b₃, rfl, hRest⟩ := hText.token
          simp only [List.length_cons] at hLess
          refine .bindDiscard ((ih (found ++ .hole inner :: textPart "") hFit.tail hRest (by omega)
            (by omega)).imp fun parts hParts => ?_)
          rw [hParts]
          simp [partsBare_append, partsBare, textPart, hSame]

/-- An interpolated string is read from its first text on. -/
theorem takesTokens_interpolation (hExpression : TakesExpr 1 0 (bound - 1) expression)
    {span start : Span}
    {parts : List (Part Expr)} {before after : List TokenKind}
    (h : Phrase (.expr (.interpolation span parts)) d before after)
    (hBound : before.length < bound) :
    ∃ first rest, before = .textStart first :: rest ∧
      TakesTokens d rest after (·.bare = (Expr.interpolation span parts).bare)
        (interpolation expression first start) := by
  have hParts : PartsFit parts := h.shaped.fitsGrammar
  have hFit : HolesFit d parts := by
    refine ⟨fun e he => h.shaped.part ?_, h.shallow, hParts.filled, hParts.apart⟩
    exact List.mem_map_of_mem (List.mem_filterMap.2 ⟨_, he, rfl⟩)
  obtain ⟨hole, hHole⟩ := hParts.hole
  have hRead : ∀ first e more rest, textPart first ++ .hole e :: more = parts →
      HolesFit d (.hole e :: more) → LeavesTokens (holesWritten line (.hole e :: more)) rest after →
      rest.length < bound - 1 → TakesTokens d rest after
        (·.bare = (Expr.interpolation span parts).bare) (interpolation expression first start) := by
    rintro first e more rest rfl hFits hRest hLess
    refine .bindRounds fun n hn => ?_
    refine (takesTokens_holes hExpression n (textPart first) hFits hRest hLess hn).bind
      fun found hFound => ?_
    refine .bindSpanFrom fun span => .pure ?_
    rw [Expr.bare, Expr.bare, hFound]
  have hWritten : LeavesTokens (Written.textBefore parts :: holesWritten line parts) before after :=
    h.written
  match parts, hHole, hFit, hRead, hWritten with
  | .hole e :: more, _, hFit, hRead, hWritten =>
      obtain ⟨rest, rfl, hRest⟩ := hWritten.token
      rw [List.length_cons] at hBound
      exact ⟨"", rest, rfl, hRead "" e more rest rfl hFit hRest (by omega)⟩
  | [.text value], hHole, _, _, _ => simp at hHole
  | .text value :: part :: more, _, hFit, hRead, hWritten =>
      obtain ⟨e, rfl⟩ := hFit.exists_hole
      obtain ⟨rest, rfl, hRest⟩ := hWritten.token
      rw [List.length_cons] at hBound
      refine ⟨value, rest, rfl, hRead value e more rest ?_ hFit.tail hRest (by omega)⟩
      rw [textPart_of_ne (hFit.filled value (by simp))]
      rfl

end

/-- The rule reads every block, if fewer tokens than said are left. -/
def TakesBlock (bound : Nat) (rule : Rule Block) : Prop :=
  ∀ ⦃b : Block⦄ ⦃d : Nat⦄ ⦃before after : List TokenKind⦄, Phrase (.block b) d before after →
    before.length < bound → TakesTokens d before after (·.bare = b.bare) rule

/-- The rule reads every function that has a name, or every one that has none. -/
def TakesFunction (named : Bool) (bound : Nat) (rule : Rule Function) : Prop :=
  ∀ ⦃f : Function⦄ ⦃d : Nat⦄ ⦃before after : List TokenKind⦄, Phrase (.function f) d before after →
    f.name.isSome = named → before.length < bound →
      TakesTokens d before after (·.bare = f.bare) rule

section

variable {bound : Nat} {expression : Rule Expr}

/-- A literal, a name, a function, or an expression in brackets is read back; the first token tells
which it is. -/
theorem takesPrimary_primaryOf {lambda : Rule Function}
    (hExpression : TakesExpr 1 0 (bound - 1) expression)
    (hLambda : TakesFunction false bound lambda) :
    TakesPrimary bound (primaryOf expression lambda) := by
  intro e d before after h hPrimary hBound
  refine .bindCurrentSpan fun start => ?_
  match e with
  | .int .. | .float .. | .text .. | .name .. | .nil _ | .bool _ true | .bool _ false =>
      obtain rfl := LeavesTokens.single h.written
      exact .bindPeek (.bindDiscard (.pure rfl))
  | .interpolation span parts =>
      obtain ⟨first, rest, rfl, hRead⟩ := takesTokens_interpolation hExpression h hBound
      exact .bindPeek (.bindDiscard hRead)
  | .list span items =>
      obtain ⟨rest, rfl, hInside⟩ := LeavesTokens.token h.written
      obtain ⟨_, hItems, hClose⟩ := hInside.append
      obtain rfl := hClose.single
      rw [List.length_cons] at hBound
      rw [itemsWritten_eq] at hItems
      have hRule : TakesItems Expr.bare (·.written line) .rightBracket items d (bound - 1)
          fun _ => expression :=
        takesItems_items hExpression (fun item hItem => h.shaped.part (List.mem_map_of_mem hItem))
          h.shallow
      refine .bindPeek (.bindDiscard ?_)
      refine (TakesTokens.separatedUpTo hRule rfl (by simp) hItems (by omega)).bind
        fun found hFound => ?_
      exact .bindSpanFrom fun span => .pure (by simp [Expr.bare, hFound])
  | .record span fields =>
      obtain ⟨rest, rfl, hInside⟩ := LeavesTokens.token h.written
      obtain ⟨_, hFields, hClose⟩ := hInside.append
      obtain rfl := hClose.single
      rw [List.length_cons] at hBound
      rw [fieldsWritten_eq] at hFields
      have hRule := takesItems_fields (d := d) hExpression
        (fun field hField => h.shaped.part (List.mem_map_of_mem hField)) h.shallow
        h.shaped.fitsGrammar
      refine .bindPeek (.bindDiscard ?_)
      refine (TakesTokens.separatedUpTo hRule rfl (by simp) hFields (by omega)).bind
        fun found hFound => ?_
      exact .bindSpanFrom fun span => .pure (by simp [Expr.bare, hFound])
  | .paren span inner =>
      obtain ⟨rest, rfl, hInside⟩ := LeavesTokens.token h.written
      obtain ⟨_, hInner, hClose⟩ := hInside.append
      obtain rfl := hClose.single
      rw [List.length_cons] at hBound
      have hPhrase : Phrase (.expr inner) (d + 1) rest (.mark (.symbol .rightParen) :: after) := by
        refine ⟨hInner, h.shaped.part (by simp [Node.parts, Expr.parts]), ?_⟩
        have hShallow : d + (inner.nesting + 1) ≤ _ := h.shallow
        change d + 1 + inner.nesting ≤ _
        omega
      refine .bindPeek (.bindDiscard (.bindSkipNone (hPhrase.firstKind_ne rfl rfl) ?_))
      refine (hExpression.inside hPhrase rfl (by omega)).bind fun found hFound => ?_
      refine .bindSkipNone (by simp) (.bindExpect (.bindSpanFrom fun span => .pure ?_))
      simp [Expr.bare, hFound]
  | .lambda (.mk span name params body) =>
      obtain rfl : name = none := h.shaped.fitsGrammar
      have hPhrase : Phrase (.function (.mk span none params body)) d before after :=
        ⟨h.written, h.shaped.part (by simp [Node.parts, Expr.parts]), h.shallow⟩
      obtain ⟨rest, rfl, -⟩ := LeavesTokens.token h.written
      refine .bindPeek ((hLambda hPhrase rfl hBound).bind fun found hFound => .pure ?_)
      rw [Expr.bare, Expr.bare, hFound]

end

end Metagen.Script
