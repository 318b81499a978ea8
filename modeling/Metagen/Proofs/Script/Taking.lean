import Metagen.Script.Grammar
import Metagen.Proofs.Script.Rules
import Metagen.Proofs.Script.Written

/-! Rules of the grammar that read what they are to read: from one list of tokens to another, with a
good result and without a problem. Nothing is asked of a rule that starts elsewhere. -/

namespace Metagen.Script

/-- The first token of what is left; after all of it comes the end mark. -/
def firstKind (ks : List TokenKind) : TokenKind := ks.headD (.mark .endOfInput)

@[simp]
theorem firstKind_cons (k : TokenKind) (ks : List TokenKind) : firstKind (k :: ks) = k := rfl

def pastLines (ks : List TokenKind) : List TokenKind := ks.dropWhile (· = .mark .newline)

theorem pastLines_of_ne {ks : List TokenKind} (h : firstKind ks ≠ .mark .newline) :
    pastLines ks = ks := by
  cases ks with
  | nil => rfl
  | cons k rest => exact List.dropWhile_cons_of_neg (by simpa using h)

@[simp]
theorem pastLines_newline (ks : List TokenKind) :
    pastLines (.mark .newline :: ks) = pastLines ks := rfl

/-- The cursor stands in front of these tokens, which the end mark follows, this deep in
expressions, and no problem has been reported. -/
structure Reading.At (depth : Nat) (ks : List TokenKind) (r : Reading) : Prop where
  kinds : (r.cursor.current :: r.cursor.upcoming).map (·.kind) = ks ++ [.mark .endOfInput]
  depth : r.depth = depth
  clean : r.report = {}

/-- The rule reads from one place to another without a problem, and its result is good. -/
def TakesTokens {Result : Type} (depth : Nat) (before after : List TokenKind) (good : Result → Prop)
    (rule : Rule Result) : Prop :=
  ∀ r, r.At depth before → ∃ result r', rule r = .ok result r' ∧ good result ∧ r'.At depth after

namespace Reading.At

variable {r : Reading} {d : Nat} {k : TokenKind} {ks : List TokenKind}

theorem first (h : r.At d ks) : r.cursor.current.kind = firstKind ks := by
  have hKinds := h.kinds
  cases ks with
  | nil => exact (List.cons.inj hKinds).1
  | cons k rest => exact (List.cons.inj hKinds).1

theorem length (h : r.At d ks) : r.cursor.upcoming.length = ks.length := by
  have hKinds := congrArg List.length h.kinds
  simpa using hKinds

theorem advance (h : r.At d (k :: ks)) : At d ks { r with cursor := r.cursor.advance } := by
  obtain ⟨hKinds, hDepth, hClean⟩ := h
  obtain ⟨-, hRest⟩ := List.cons.inj hKinds
  obtain ⟨file, ⟨previous, current, upcoming⟩, report, depth⟩ := r
  cases upcoming with
  | nil => exact absurd hRest.symm (List.append_ne_nil_of_right_ne_nil ks (by simp))
  | cons t ts => exact ⟨hRest, hDepth, hClean⟩

/-- Passing over line ends drops them from the front of the tokens that are left. -/
theorem passNewlines {previous : Option Span} {current : Token} {upcoming : List Token}
    (h : (current :: upcoming).map (·.kind) = ks ++ [.mark .endOfInput]) :
    ((Cursor.passNewlines previous current upcoming).current ::
      (Cursor.passNewlines previous current upcoming).upcoming).map (·.kind) =
        pastLines ks ++ [.mark .endOfInput] := by
  induction upcoming generalizing previous current ks with
  | nil =>
      cases ks with
      | nil => exact h
      | cons k rest =>
          obtain ⟨-, hRest⟩ := List.cons.inj h
          exact absurd hRest.symm (List.append_ne_nil_of_right_ne_nil rest (by simp))
  | cons t ts ih =>
      cases ks with
      | nil => cases (List.cons.inj h).2
      | cons k rest =>
          obtain ⟨hFirst, hRest⟩ := List.cons.inj h
          unfold Cursor.passNewlines
          by_cases hLine : current.kind = .mark .newline
          · obtain rfl : k = .mark .newline := hFirst.symm.trans hLine
            rw [if_pos hLine, pastLines_newline]
            exact ih hRest
          · rw [if_neg hLine, pastLines_of_ne (by rw [firstKind_cons, ← hFirst]; exact hLine)]
            exact h

theorem skipNewlines (h : r.At d ks) :
    At d (pastLines ks) { r with cursor := r.cursor.skipNewlines } :=
  ⟨passNewlines h.kinds, h.depth, h.clean⟩

end Reading.At

namespace TakesTokens

variable {Result Next : Type} {d : Nat} {k : TokenKind} {ks before middle after : List TokenKind}
  {good : Result → Prop} {fine : Next → Prop} {rule : Rule Result}

theorem imp {better : Result → Prop} (h : TakesTokens d before after good rule)
    (hImp : ∀ result, good result → better result) : TakesTokens d before after better rule := by
  intro r hAt
  obtain ⟨result, r', hRun, hGood, hAfter⟩ := h r hAt
  exact ⟨result, r', hRun, hImp result hGood, hAfter⟩

theorem pure {result : Result} (h : good result) : TakesTokens d ks ks good (Pure.pure result) :=
  fun r hAt => ⟨result, r, rfl, h, hAt⟩

/-- Rules that take tokens one after the other take what stands in a row. -/
theorem bind {first : Rule Result} {second : Result → Rule Next}
    (hFirst : TakesTokens d before middle good first)
    (hSecond : ∀ result, good result → TakesTokens d middle after fine (second result)) :
    TakesTokens d before after fine (first >>= second) := by
  intro r hAt
  obtain ⟨result, r', hRun, hGood, hMiddle⟩ := hFirst r hAt
  obtain ⟨next, r'', hNext, hFine, hAfter⟩ := hSecond result hGood r' hMiddle
  refine ⟨next, r'', ?_, hFine, hAfter⟩
  change EStateM.bind first second r = _
  rw [EStateM.bind, hRun]
  exact hNext

theorem map {first : Rule Result} (f : Result → Next)
    (hFirst : TakesTokens d before after good first)
    (h : ∀ result, good result → fine (f result)) :
    TakesTokens d before after fine (f <$> first) := by
  rw [map_eq_pure_bind]
  exact hFirst.bind fun result hGood => .pure (h result hGood)

theorem mapSome (h : TakesTokens d before after good rule) :
    TakesTokens d before after (fun result? => ∃ result, result? = some result ∧ good result)
      (some <$> rule) :=
  h.map _ fun result hGood => ⟨result, rfl, hGood⟩

theorem iteNeg {p : Prop} [Decidable p] {other : Rule Result} (hp : ¬ p)
    (h : TakesTokens d before after good other) :
    TakesTokens d before after good (if p then rule else other) := by rwa [if_neg hp]

/-- A rule that only looks at the reading. -/
theorem bindLook {look : Rule Result} {second : Result → Rule Next} (seen : Result → Prop)
    (hLook : ∀ r, r.At d ks → ∃ result, look r = .ok result r ∧ seen result)
    (h : ∀ result, seen result → TakesTokens d ks after fine (second result)) :
    TakesTokens d ks after fine (look >>= second) := by
  have hFirst : TakesTokens d ks ks seen look := by
    intro r hAt
    obtain ⟨result, hRun, hSeen⟩ := hLook r hAt
    exact ⟨result, r, hRun, hSeen, hAt⟩
  exact hFirst.bind h

theorem bindPeek {second : TokenKind → Rule Result}
    (h : TakesTokens d ks after good (second (firstKind ks))) :
    TakesTokens d ks after good (Rule.peek >>= second) :=
  bindLook (· = firstKind ks) (fun _ hAt => ⟨_, rfl, hAt.first⟩) fun _ hSeen => hSeen ▸ h

/-- The token after the one at the cursor is the first one behind it. -/
theorem bindPeekNext {second : TokenKind → Rule Result}
    (h : TakesTokens d (k :: ks) after good (second (firstKind ks))) :
    TakesTokens d (k :: ks) after good (Rule.peekNext >>= second) := by
  refine bindLook (· = firstKind ks) (fun r hAt => ?_) fun _ hSeen => hSeen ▸ h
  have hNext := hAt.advance.first
  obtain ⟨hKinds, -, -⟩ := hAt
  obtain ⟨file, ⟨previous, current, upcoming⟩, report, depth⟩ := r
  cases upcoming with
  | nil =>
      obtain ⟨-, hRest⟩ := List.cons.inj hKinds
      exact absurd hRest.symm (List.append_ne_nil_of_right_ne_nil ks (by simp))
  | cons t ts => exact ⟨t.kind, rfl, hNext⟩

theorem bindAt {mark : Mark} {second : Bool → Rule Result}
    (h : TakesTokens d ks after good (second (decide (firstKind ks = .mark mark)))) :
    TakesTokens d ks after good (Rule.at? mark >>= second) :=
  bindLook (· = decide (firstKind ks = .mark mark))
    (fun _ hAt => ⟨_, rfl, by rw [hAt.first]⟩) fun _ hSeen => hSeen ▸ h

theorem bindCurrentSpan {second : Span → Rule Result}
    (h : ∀ span, TakesTokens d ks after good (second span)) :
    TakesTokens d ks after good (Rule.currentSpan >>= second) :=
  bindLook (fun _ => True) (fun _ _ => ⟨_, rfl, trivial⟩) fun span _ => h span

theorem bindPreviousSpan {second : Span → Rule Result}
    (h : ∀ span, TakesTokens d ks after good (second span)) :
    TakesTokens d ks after good (Rule.previousSpan >>= second) :=
  bindLook (fun _ => True) (fun _ _ => ⟨_, rfl, trivial⟩) fun span _ => h span

theorem bindSpanFrom {start : Span} {second : Span → Rule Result}
    (h : ∀ span, TakesTokens d ks after good (second span)) :
    TakesTokens d ks after good (Grammar.spanFrom start >>= second) :=
  bindPreviousSpan fun _ => h _

/-- There are more rounds than tokens left. -/
theorem bindRounds {second : Nat → Rule Result}
    (h : ∀ n, ks.length < n → TakesTokens d ks after good (second n)) :
    TakesTokens d ks after good (Rule.rounds >>= second) :=
  bindLook (ks.length < ·) (fun _ hAt => ⟨_, rfl, by rw [hAt.length]; omega⟩) h

/-- The report is not full. -/
theorem bindFull {second : Bool → Rule Result} (h : TakesTokens d ks after good (second false)) :
    TakesTokens d ks after good (Rule.isFull >>= second) :=
  bindLook (· = false) (fun _ hAt => ⟨_, rfl, by rw [hAt.clean]; rfl⟩)
    fun _ hSeen => hSeen ▸ h

/-- The first token that is no line end is known. -/
theorem bindPast {second : Reading → Rule Result}
    (h : ∀ r : Reading, r.cursor.pastNewlines = firstKind (pastLines ks) →
      TakesTokens d ks after good (second r)) : TakesTokens d ks after good (get >>= second) :=
  bindLook _ (fun r hAt => ⟨r, rfl, hAt.skipNewlines.first⟩) h

theorem bindAdvance {second : Token → Rule Result}
    (h : ∀ t, TakesTokens d ks after good (second t)) :
    TakesTokens d (k :: ks) after good (Rule.advance >>= second) :=
  fun r hAt => h r.cursor.current _ hAt.advance

theorem bindDiscard {second : Unit → Rule Result} (h : TakesTokens d ks after good (second ())) :
    TakesTokens d (k :: ks) after good (discard Rule.advance >>= second) :=
  fun _ hAt => h _ hAt.advance

theorem bindSkip {second : Unit → Rule Result}
    (h : TakesTokens d (pastLines ks) after good (second ())) :
    TakesTokens d ks after good (Rule.skipNewlines >>= second) :=
  fun _ hAt => h _ hAt.skipNewlines

/-- No line end stands there. -/
theorem bindSkipNone {second : Unit → Rule Result} (hLine : firstKind ks ≠ .mark .newline)
    (h : TakesTokens d ks after good (second ())) :
    TakesTokens d ks after good (Rule.skipNewlines >>= second) :=
  bindSkip (by rwa [pastLines_of_ne hLine])

/-- A mark that is there is read, and the rest goes on behind it. -/
theorem bindEat {mark : Mark} {second : Bool → Rule Result}
    (h : TakesTokens d ks after good (second true)) :
    TakesTokens d (.mark mark :: ks) after good (Rule.eat mark >>= second) := by
  have hEat : TakesTokens d (.mark mark :: ks) ks (· = true) (Rule.eat mark) := by
    intro r hAt
    have hKind : r.cursor.current.kind = .mark mark := hAt.first
    refine ⟨true, { r with cursor := r.cursor.advance }, ?_, rfl, hAt.advance⟩
    rw [ReadsOn.eat_eq, if_pos hKind]
  exact hEat.bind fun _ hFound => hFound ▸ h

theorem bindEatNone {mark : Mark} {second : Bool → Rule Result} (hMark : firstKind ks ≠ .mark mark)
    (h : TakesTokens d ks after good (second false)) :
    TakesTokens d ks after good (Rule.eat mark >>= second) := by
  refine bindLook (· = false) (fun r hAt => ⟨false, ?_, rfl⟩) fun _ hSeen => hSeen ▸ h
  rw [ReadsOn.eat_eq, if_neg (by rwa [hAt.first])]

theorem bindExpect {mark : Mark} {second : Unit → Rule Result}
    (h : TakesTokens d ks after good (second ())) :
    TakesTokens d (.mark mark :: ks) after good (Rule.expect mark >>= second) := by
  have hExpect : TakesTokens d (.mark mark :: ks) ks (fun _ : Unit => True) (Rule.expect mark) :=
    bindEat (pure trivial)
  exact hExpect.bind fun _ _ => h

theorem expectName (name : String) :
    TakesTokens d (.name name :: ks) ks (·.name = name) Rule.expectName :=
  bindPeek (bindAdvance fun _ => pure rfl)

theorem bindName {name : String} {second : Ident → Rule Result}
    (h : ∀ span, TakesTokens d ks after good (second ⟨name, span⟩)) :
    TakesTokens d (.name name :: ks) after good (Rule.expectName >>= second) := by
  refine (expectName name).bind ?_
  rintro ⟨_, span⟩ rfl
  exact h span

/-- The name of a field is read from a name or from the word that spells it. -/
theorem bindKey {name : String} {second : Ident → Rule Result} (hKey : k.SpellsKey name)
    (h : ∀ span, TakesTokens d ks after good (second ⟨name, span⟩)) :
    TakesTokens d (k :: ks) after good (Rule.expectFieldName >>= second) := by
  have hName : TakesTokens d (k :: ks) ks (·.name = name) Rule.expectFieldName := by
    refine bindPeek ?_
    rw [firstKind_cons]
    cases k with
    | name s => exact bindAdvance fun _ => pure hKey
    | text s => exact bindAdvance fun _ => pure hKey
    | mark m =>
        cases m with
        | keyword word => exact bindAdvance fun _ => pure hKey
        | _ => exact hKey.elim
    | _ => exact hKey.elim
  refine hName.bind ?_
  rintro ⟨_, span⟩ rfl
  exact h span

/-- One level of expression is read if there are not too many around it. -/
theorem nested (hDepth : d < Grammar.maxDepth) (h : TakesTokens (d + 1) before after good rule) :
    TakesTokens d before after good (Grammar.nested rule) := by
  refine bindLook (fun r => r.depth = d) (fun r hAt => ⟨r, rfl, hAt.depth⟩) ?_
  rintro around rfl
  refine iteNeg (by omega) fun r hAt => ?_
  obtain ⟨result, r', hRun, hGood, hAfter⟩ :=
    h { r with depth := around.depth + 1 } ⟨hAt.kinds, rfl, hAt.clean⟩
  refine ⟨result, { r' with depth := around.depth }, ?_, hGood, hAfter.kinds, rfl, hAfter.clean⟩
  rw [hRun]

theorem orElseNone (h : TakesTokens d before after good rule) :
    TakesTokens d before after (fun result? => ∃ result, result? = some result ∧ good result)
      (Rule.orElseNone rule) := by
  intro r hAt
  obtain ⟨result, r', hRun, hGood, hAfter⟩ := h r hAt
  refine ⟨some result, r', ?_, ⟨result, rfl, hGood⟩, hAfter⟩
  rw [Rule.orElseNone, hRun]

/-- A statement ends where its line does. -/
theorem bindStatementEnd {second : Unit → Rule Result}
    (h : TakesTokens d (pastLines ks) after good (second ())) :
    TakesTokens d (.mark .newline :: ks) after good (Rule.expectStatementEnd >>= second) := by
  have hEnd : TakesTokens d (.mark .newline :: ks) (pastLines ks) (fun _ : Unit => True)
      Rule.expectStatementEnd :=
    bindPeek fun r hAt => ⟨(), _, rfl, trivial, hAt.skipNewlines⟩
  exact hEnd.bind fun _ _ => h

end TakesTokens

end Metagen.Script
