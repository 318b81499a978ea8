import Metagen.Script.Grammar
import Metagen.Proofs.Script.Soundness
import Metagen.Proofs.Source.Report

/-! Rules of the grammar always get on. Where a rule yields something, it has read tokens, and where
it gives up, it has reported a problem. So the bounds on nesting and on rounds, which grow with the
number of tokens, are never reached: whatever the bounds are beyond that, a rule does the same.

This is said of two rules at once, which differ in their bounds. The bounds on nesting are part of
the rules, while those on rounds are taken from the tokens, and so the second rule finds more of
them, behind the end mark, where nothing is read. -/

namespace Metagen.Script

namespace Reading

/-- More tokens behind the end mark. -/
def pad (junk : List Token) (r : Reading) : Reading :=
  { r with cursor := { r.cursor with upcoming := r.cursor.upcoming ++ junk } }

/-- The number of tokens behind the one at the cursor. -/
def ahead (r : Reading) : Nat := r.cursor.upcoming.length

/-- From one reading to a later one, tokens are read and problems are reported. -/
structure MovesTo (r s : Reading) : Prop where
  ended : s.Ended
  ahead : s.ahead ≤ r.ahead
  total : r.report.total ≤ s.report.total
  counted : r.report.Counted → s.report.Counted

variable {r s t : Reading}

theorem MovesTo.refl (h : r.Ended) : r.MovesTo r := ⟨h, Nat.le_refl _, Nat.le_refl _, id⟩

theorem MovesTo.trans (h : r.MovesTo s) (h' : s.MovesTo t) : r.MovesTo t where
  ended := h'.ended
  ahead := Nat.le_trans h'.ahead h.ahead
  total := Nat.le_trans h.total h'.total
  counted hCounted := h'.counted (h.counted hCounted)

/-- A token that is not the end mark is read. -/
theorem Ended.movesTo_advance (h : r.Ended)
    (hKind : r.cursor.current.kind ≠ .mark .endOfInput) :
    r.MovesTo { r with cursor := r.cursor.advance } ∧
      ahead { r with cursor := r.cursor.advance } + 1 = r.ahead := by
  obtain ⟨t, ts, hUpcoming⟩ := h.exists_next hKind
  have hAhead : ahead { r with cursor := r.cursor.advance } + 1 = r.ahead := by
    simp [ahead, Cursor.advance, hUpcoming]
  exact ⟨⟨h.advance hKind, by omega, Nat.le_refl _, id⟩, hAhead⟩

theorem Ended.advance_pad (h : r.Ended) (hKind : r.cursor.current.kind ≠ .mark .endOfInput)
    (junk : List Token) : { r.pad junk with cursor := (r.pad junk).cursor.advance } =
      pad junk { r with cursor := r.cursor.advance } := by
  obtain ⟨t, ts, hUpcoming⟩ := h.exists_next hKind
  simp [pad, Cursor.advance, hUpcoming]

theorem Ended.kind_of_upcoming (h : r.Ended) (hNone : r.cursor.upcoming = []) :
    r.cursor.current.kind = .mark .endOfInput := by
  by_contra hKind
  obtain ⟨t, ts, hSome⟩ := h.exists_next hKind
  cases hNone.symm.trans hSome

/-- Line ends are passed over, and nothing that the end mark hides. -/
theorem passNewlines_pad (file : SourceFile) (report : Report) (depth : Nat) (junk : List Token)
    (previous : Option Span) (current : Token) (upcoming : List Token)
    (h : Ended ⟨file, ⟨previous, current, upcoming⟩, report, depth⟩) :
    (Cursor.passNewlines previous current upcoming).upcoming.length ≤ upcoming.length ∧
      pad junk ⟨file, Cursor.passNewlines previous current upcoming, report, depth⟩ =
        ⟨file, Cursor.passNewlines previous current (upcoming ++ junk), report, depth⟩ := by
  induction upcoming generalizing previous current with
  | nil =>
      have hEnd : current.kind = .mark .endOfInput := h.kind_of_upcoming rfl
      refine ⟨Nat.le_refl _, ?_⟩
      cases junk with
      | nil => rfl
      | cons t ts => simp [pad, Cursor.passNewlines, hEnd]
  | cons t ts ih =>
      rw [List.cons_append]
      unfold Cursor.passNewlines
      split
      next hLine =>
        obtain ⟨hLength, hPad⟩ := ih _ _ (h.advance (show current.kind ≠ _ by simp [hLine]))
        exact ⟨Nat.le_succ_of_le hLength, hPad⟩
      next => exact ⟨Nat.le_refl _, rfl⟩

theorem Ended.movesTo_skipNewlines (h : r.Ended) :
    r.MovesTo { r with cursor := r.cursor.skipNewlines } :=
  ⟨h.skipNewlines.1, (passNewlines_pad _ _ _ [] _ _ _ h).1, Nat.le_refl _, id⟩

theorem Ended.skipNewlines_pad (h : r.Ended) (junk : List Token) :
    { r.pad junk with cursor := (r.pad junk).cursor.skipNewlines } =
      pad junk { r with cursor := r.cursor.skipNewlines } :=
  (passNewlines_pad _ _ _ junk _ _ _ h).2.symm

/-- Passing over a statement stops at the end mark, so that tokens behind it make no difference. -/
theorem passStatement_pad (file : SourceFile) (report : Report) (depth : Nat) (junk : List Token)
    (previous : Option Span) (current : Token) (upcoming : List Token)
    (h : Ended ⟨file, ⟨previous, current, upcoming⟩, report, depth⟩) :
    (Cursor.passStatement previous current upcoming).upcoming.length ≤ upcoming.length ∧
      pad junk ⟨file, Cursor.passStatement previous current upcoming, report, depth⟩ =
        ⟨file, Cursor.passStatement previous current (upcoming ++ junk), report, depth⟩ := by
  induction upcoming generalizing previous current with
  | nil =>
      have hEnd : current.kind = .mark .endOfInput := h.kind_of_upcoming rfl
      refine ⟨Nat.le_refl _, ?_⟩
      cases junk with
      | nil => rfl
      | cons t ts => simp [pad, Cursor.passStatement, hEnd]
  | cons t ts ih =>
      rw [List.cons_append]
      unfold Cursor.passStatement
      split
      next => exact ⟨Nat.le_refl _, rfl⟩
      next hEnd =>
        have hNext := h.advance (show current.kind ≠ _ from hEnd)
        split
        next =>
          obtain ⟨hLength, hPad⟩ := passNewlines_pad file report depth junk _ _ _ hNext
          exact ⟨Nat.le_succ_of_le hLength, hPad⟩
        next =>
          split
          next => exact ⟨Nat.le_refl _, rfl⟩
          next =>
            obtain ⟨hLength, hPad⟩ := ih _ _ hNext
            exact ⟨Nat.le_succ_of_le hLength, hPad⟩

theorem Ended.movesTo_resync (h : r.Ended) : r.MovesTo { r with cursor := r.cursor.resync } :=
  ⟨passStatement_ended _ _ _ _ _ _ h, (passStatement_pad _ _ _ [] _ _ _ h).1, Nat.le_refl _, id⟩

theorem Ended.resync_pad (h : r.Ended) (junk : List Token) :
    { r.pad junk with cursor := (r.pad junk).cursor.resync } =
      pad junk { r with cursor := r.cursor.resync } :=
  (passStatement_pad _ _ _ junk _ _ _ h).2.symm

theorem Ended.movesTo_push (h : r.Ended) (p : Problem) :
    r.MovesTo { r with report := r.report.push p } :=
  ⟨h, Nat.le_refl _, Nat.le_succ _, fun hCounted => hCounted.push p⟩

end Reading

/-- What comes of two rules that do the same: at least so many tokens have been read where they
yield something, and a problem has been reported where they give up. -/
def Agree {Result : Type} (junk : List Token) (least : Nat) (r : Reading) :
    EStateM.Result Unit Reading Result → EStateM.Result Unit Reading Result → Prop
  | .ok result s, other =>
    other = .ok result (s.pad junk) ∧ r.MovesTo s ∧ s.ahead + least ≤ r.ahead
  | .error () s, other =>
    other = .error () (s.pad junk) ∧ r.MovesTo s ∧ r.report.total < s.report.total

/-- With at most so many tokens ahead, the rules do the same and get on. -/
def AdvancesAlike {Result : Type} (junk : List Token) (most least : Nat)
    (rule rule' : Rule Result) :
    Prop :=
  ∀ r, r.Ended → r.ahead ≤ most → Agree junk least r (rule r) (rule' (r.pad junk))

/-- They do so from a token of this kind on. -/
def AdvancesAt {Result : Type} (k : TokenKind) (junk : List Token) (most least : Nat)
    (rule rule' : Rule Result) : Prop :=
  ∀ r, r.Ended → r.ahead ≤ most → r.cursor.current.kind = k →
    Agree junk least r (rule r) (rule' (r.pad junk))

/-- They do so from a token of one kind on that a token of another kind follows. -/
def AdvancesBefore {Result : Type} (k next : TokenKind) (junk : List Token) (most least : Nat)
    (rule rule' : Rule Result) : Prop :=
  ∀ r, r.Ended → r.ahead ≤ most → r.cursor.current.kind = k → r.nextKind = next →
    Agree junk least r (rule r) (rule' (r.pad junk))

namespace Agree

variable {Result Next : Type} {junk : List Token} {least more : Nat} {r s : Reading}
  {outcome other : EStateM.Result Unit Reading Result}

theorem mono (h : Agree junk more r outcome other) (hLeast : least ≤ more) :
    Agree junk least r outcome other := by
  cases outcome with
  | ok result s => exact ⟨h.1, h.2.1, Nat.le_trans (Nat.add_le_add_left hLeast _) h.2.2⟩
  | error failure s => exact h

/-- Something was read or reported before. -/
theorem before (h : Agree junk least s outcome other) (hMoves : r.MovesTo s)
    (hMore : s.ahead + more ≤ r.ahead) : Agree junk (more + least) r outcome other := by
  cases outcome with
  | ok result t =>
      obtain ⟨hOther, hLater, hLeast⟩ := h
      exact ⟨hOther, hMoves.trans hLater, by omega⟩
  | error failure t =>
      obtain ⟨hOther, hLater, hProblem⟩ := h
      exact ⟨hOther, hMoves.trans hLater, Nat.lt_of_le_of_lt hMoves.total hProblem⟩

/-- Together, two rules read at least what each of them reads. -/
theorem bind {first first' : Rule Result} {second second' : Result → Rule Next} {most : Nat}
    (hMost : r.ahead ≤ most) (h : Agree junk more r (first r) (first' (r.pad junk)))
    (hSecond : ∀ c, c + more ≤ most → ∀ result,
      AdvancesAlike junk c least (second result) (second' result)) :
    Agree junk (more + least) r ((first >>= second) r) ((first' >>= second') (r.pad junk)) := by
  change Agree junk _ r (EStateM.bind first second r) (EStateM.bind first' second' (r.pad junk))
  unfold EStateM.bind
  cases hRun : first r with
  | ok result s =>
      rw [hRun] at h
      obtain ⟨hOther, hMoves, hMore⟩ := h
      rw [hOther]
      exact (hSecond s.ahead (by omega) result s hMoves.ended (Nat.le_refl _)).before hMoves hMore
  | error failure s =>
      rw [hRun] at h
      obtain ⟨hOther, hMoves, hProblem⟩ := h
      rw [hOther]
      exact ⟨rfl, hMoves, hProblem⟩

/-- A result may be changed alike on both sides without a change of how far they have come. -/
theorem map {first first' : Rule Result} (f : Result → Next)
    (h : Agree junk least r (first r) (first' (r.pad junk))) :
    Agree junk least r ((f <$> first) r) ((f <$> first') (r.pad junk)) := by
  have hPure : ∀ result, AdvancesAlike junk r.ahead 0 (pure (f result)) (pure (f result)) :=
    fun _ _ hEnded _ => ⟨rfl, .refl hEnded, Nat.le_refl _⟩
  rw [map_eq_pure_bind, map_eq_pure_bind]
  exact h.bind (Nat.le_refl _) fun c hc result s hEnded hMost => hPure result s hEnded (by omega)

end Agree

namespace AdvancesAlike

variable {Result Next : Type} {junk : List Token} {most least more : Nat} {k : TokenKind}
  {rule rule' : Rule Result}

theorem here (h : AdvancesAlike junk most least rule rule') :
    AdvancesAt k junk most least rule rule' := fun r hEnded hMost _ => h r hEnded hMost

theorem pure (result : Result) : AdvancesAlike junk most 0 (pure result) (pure result) :=
  fun _ hEnded _ => ⟨rfl, .refl hEnded, Nat.le_refl _⟩

/-- Rules that advance alike may be put one behind the other. -/
theorem bind {first first' : Rule Result} {second second' : Result → Rule Next}
    (hFirst : AdvancesAlike junk most 0 first first')
    (hSecond : ∀ result, AdvancesAlike junk most least (second result) (second' result)) :
    AdvancesAlike junk most least (first >>= second) (first' >>= second') := by
  intro r hEnded hMost
  rw [← Nat.zero_add least]
  exact .bind hMost (hFirst r hEnded hMost) fun c hc result s hEnded' hMost' =>
    hSecond result s hEnded' (Nat.le_trans hMost' hc)

/-- After a rule that reads a token, fewer are ahead, and one fewer is left to be read. -/
theorem bindRead {first first' : Rule Result} {second second' : Result → Rule Next}
    (hFirst : AdvancesAlike junk most 1 first first')
    (hSecond : ∀ c < most, ∀ result,
      AdvancesAlike junk c (least - 1) (second result) (second' result)) :
    AdvancesAlike junk most least (first >>= second) (first' >>= second') :=
  fun r hEnded hMost => (Agree.bind hMost (hFirst r hEnded hMost) hSecond).mono (by omega)

theorem map {first first' : Rule Result} (f : Result → Next)
    (h : AdvancesAlike junk most least first first') :
    AdvancesAlike junk most least (f <$> first) (f <$> first') :=
  fun r hEnded hMost => (h r hEnded hMost).map f

/-- A condition that is the same on both sides keeps rules advancing alike. -/
theorem ite {p : Prop} [Decidable p] {other other' : Rule Result}
    (h : p → AdvancesAlike junk most least rule rule')
    (hOther : ¬ p → AdvancesAlike junk most least other other') :
    AdvancesAlike junk most least (if p then rule else other) (if p then rule' else other') := by
  split
  next hp => exact h hp
  next hp => exact hOther hp

/-- A rule that only looks at the reading, and not behind the end mark. -/
theorem bindLook {look : Rule Result} {second second' : Result → Rule Next}
    (hLook : ∀ r, r.Ended → ∃ result, look r = .ok result r ∧
      look (r.pad junk) = .ok result (r.pad junk))
    (h : ∀ result, AdvancesAlike junk most least (second result) (second' result)) :
    AdvancesAlike junk most least (look >>= second) (look >>= second') := by
  intro r hEnded hMost
  obtain ⟨result, hRun, hOther⟩ := hLook r hEnded
  change Agree junk _ r (EStateM.bind look second r) (EStateM.bind look second' (r.pad junk))
  rw [EStateM.bind, EStateM.bind, hRun, hOther]
  exact h result r hEnded hMost

theorem bindGet {second second' : Reading → Rule Result}
    (h : ∀ r, r.Ended → r.ahead ≤ most →
      AdvancesAlike junk most least (second r) (second' (r.pad junk))) :
    AdvancesAlike junk most least (get >>= second) (get >>= second') :=
  fun r hEnded hMost => h r hEnded hMost r hEnded hMost

theorem bindPeek {second second' : TokenKind → Rule Result}
    (h : ∀ k, AdvancesAt k junk most least (second k) (second' k)) :
    AdvancesAlike junk most least (Rule.peek >>= second) (Rule.peek >>= second') :=
  fun r hEnded hMost => h r.cursor.current.kind r hEnded hMost rfl

theorem bindCurrentSpan {second second' : Span → Rule Result}
    (h : ∀ span, AdvancesAlike junk most least (second span) (second' span)) :
    AdvancesAlike junk most least (Rule.currentSpan >>= second) (Rule.currentSpan >>= second') :=
  bindLook (fun _ _ => ⟨_, rfl, rfl⟩) h

theorem bindPreviousSpan {second second' : Span → Rule Result}
    (h : ∀ span, AdvancesAlike junk most least (second span) (second' span)) :
    AdvancesAlike junk most least (Rule.previousSpan >>= second) (Rule.previousSpan >>= second') :=
  bindLook (fun _ _ => ⟨_, rfl, rfl⟩) h

theorem bindSpanFrom {start : Span} {second second' : Span → Rule Result}
    (h : ∀ span, AdvancesAlike junk most least (second span) (second' span)) :
    AdvancesAlike junk most least (Grammar.spanFrom start >>= second)
      (Grammar.spanFrom start >>= second') := bindPreviousSpan fun _ => h _

theorem bindAt {mark : Mark} {second second' : Bool → Rule Result}
    (h : ∀ found, AdvancesAlike junk most least (second found) (second' found)) :
    AdvancesAlike junk most least (Rule.at? mark >>= second) (Rule.at? mark >>= second') :=
  bindLook (fun _ _ => ⟨_, rfl, rfl⟩) h

/-- A rule that goes another way at a mark. -/
theorem bindAtMark {mark : Mark} {second second' : Bool → Rule Result}
    (hFound : AdvancesAt (.mark mark) junk most least (second true) (second' true))
    (hMissing : AdvancesAlike junk most least (second false) (second' false)) :
    AdvancesAlike junk most least (Rule.at? mark >>= second) (Rule.at? mark >>= second') := by
  intro r hEnded hMost
  change Agree junk least r (second (decide (r.cursor.current.kind = .mark mark)) r)
    (second' (decide (r.cursor.current.kind = .mark mark)) (r.pad junk))
  by_cases hKind : r.cursor.current.kind = .mark mark
  · rw [decide_eq_true hKind]
    exact hFound r hEnded hMost hKind
  · rw [decide_eq_false hKind]
    exact hMissing r hEnded hMost

/-- There are more rounds than tokens and problems that a report keeps. The rules may differ in
their number. -/
theorem bindRounds {second second' : Nat → Rule Result}
    (h : ∀ c ≤ most, ∀ n n', c + maxProblems + 2 ≤ n → c + maxProblems + 2 ≤ n' →
      AdvancesAlike junk c least (second n) (second' n')) :
    AdvancesAlike junk most least (Rule.rounds >>= second) (Rule.rounds >>= second') := by
  intro r hEnded hMost
  refine h r.ahead hMost _ _ (Nat.le_refl _) ?_ r hEnded (Nat.le_refl _)
  have hMore : r.ahead ≤ (r.pad junk).ahead := by simp [Reading.ahead, Reading.pad]
  change r.ahead + maxProblems + 2 ≤ (r.pad junk).ahead + maxProblems + 2
  omega

theorem skipNewlines : AdvancesAlike junk most 0 Rule.skipNewlines Rule.skipNewlines := by
  intro r hEnded hMost
  refine ⟨?_, hEnded.movesTo_skipNewlines, hEnded.movesTo_skipNewlines.ahead⟩
  exact congrArg (EStateM.Result.ok ()) (hEnded.skipNewlines_pad junk)

theorem bindSkip {second second' : Unit → Rule Result}
    (h : AdvancesAlike junk most least (second ()) (second' ())) :
    AdvancesAlike junk most least (Rule.skipNewlines >>= second) (Rule.skipNewlines >>= second') :=
  skipNewlines.bind fun _ => h

theorem problemAt (code : ErrorCode) (message : String) (span : Span) :
    AdvancesAlike junk most 0 (Rule.problemAt code message span)
      (Rule.problemAt code message span) :=
  fun _ hEnded _ => ⟨rfl, hEnded.movesTo_push _, Nat.le_refl _⟩

theorem problem (code : ErrorCode) (message : String) :
    AdvancesAlike junk most 0 (Rule.problem code message) (Rule.problem code message) :=
  bindCurrentSpan fun _ => problemAt _ _ _

/-- A rule may give up after a problem. -/
theorem problemAtFail (code : ErrorCode) (message : String) (span : Span)
    {second second' : Unit → Rule Result} (h : second () = Rule.fail)
    (h' : second' () = Rule.fail) :
    AdvancesAlike junk most least (Rule.problemAt code message span >>= second)
      (Rule.problemAt code message span >>= second') := by
  intro r hEnded hMost
  change Agree junk least r (second () _) (second' () _)
  rw [h, h']
  exact ⟨rfl, hEnded.movesTo_push _, Nat.lt_succ_self _⟩

theorem problemFail (code : ErrorCode) (message : String) :
    AdvancesAlike junk most least (Rule.problem code message >>= fun _ => (Rule.fail : Rule Result))
      (Rule.problem code message >>= fun _ => Rule.fail) := by
  rw [Rule.problem, bind_assoc]
  exact bindCurrentSpan fun _ => problemAtFail _ _ _ rfl rfl

theorem unexpected (message : String) :
    AdvancesAlike junk most least (Rule.unexpected message : Rule Result)
      (Rule.unexpected message) :=
  problemFail _ _

/-- A problem that is reported only if there is one. -/
theorem problemIf {p : Prop} [Decidable p] {code : ErrorCode} {message : String} {span : Span}
    (h : AdvancesAlike junk most least rule rule') :
    AdvancesAlike junk most least
      (do
        if p then Rule.problemAt code message span
        rule)
      (do
        if p then Rule.problemAt code message span
        rule') := by
  split
  · exact (problemAt _ _ _).bind fun _ => h
  · exact h

end AdvancesAlike

namespace AdvancesAt

variable {Result Next : Type} {junk : List Token} {most least : Nat} {k : TokenKind}

theorem map {first first' : Rule Result} (f : Result → Next)
    (h : AdvancesAt k junk most least first first') :
    AdvancesAt k junk most least (f <$> first) (f <$> first') :=
  fun r hEnded hMost hKind => (h r hEnded hMost hKind).map f

/-- Only behind the end mark, the rules may find different tokens. -/
theorem bindPeekNext {second second' : TokenKind → Rule Result}
    (h : ∀ next next', (k ≠ .mark .endOfInput → next' = next) →
      AdvancesBefore k next junk most least (second next) (second' next')) :
    AdvancesAt k junk most least (Rule.peekNext >>= second) (Rule.peekNext >>= second') := by
  rintro r hEnded hMost rfl
  have hRun : ∀ (second : TokenKind → Rule Result) (r : Reading),
      (Rule.peekNext >>= second) r = second r.nextKind r := by
    rintro second ⟨file, ⟨previous, current, upcoming⟩, report, depth⟩
    cases upcoming <;> rfl
  rw [hRun, hRun]
  refine h _ _ (fun hKind => ?_) r hEnded hMost rfl rfl
  obtain ⟨t, ts, hUpcoming⟩ := hEnded.exists_next hKind
  simp [Reading.nextKind, Reading.pad, hUpcoming]

theorem bindCurrentSpan {second second' : Span → Rule Result}
    (h : ∀ span, AdvancesAt k junk most least (second span) (second' span)) :
    AdvancesAt k junk most least (Rule.currentSpan >>= second) (Rule.currentSpan >>= second') :=
  fun r hEnded hMost hKind => h _ r hEnded hMost hKind

/-- Reading a token that is no end mark advances by one, so that what comes next has one token
less. -/
theorem bindAdvance {second second' : Token → Rule Result} (hKind : k ≠ .mark .endOfInput)
    (h : ∀ c < most, ∀ t, AdvancesAlike junk c (least - 1) (second t) (second' t)) :
    AdvancesAt k junk most least (Rule.advance >>= second) (Rule.advance >>= second') := by
  rintro r hEnded hMost rfl
  obtain ⟨hMoves, hAhead⟩ := hEnded.movesTo_advance hKind
  have hFirst : Agree junk 1 r (Rule.advance r) (Rule.advance (r.pad junk)) :=
    ⟨congrArg (EStateM.Result.ok r.cursor.current) (hEnded.advance_pad hKind junk), hMoves,
      Nat.le_of_eq hAhead⟩
  exact (Agree.bind hMost hFirst h).mono (by omega)

theorem bindDiscard {second second' : Unit → Rule Result} (hKind : k ≠ .mark .endOfInput)
    (h : ∀ c < most, AdvancesAlike junk c (least - 1) (second ()) (second' ())) :
    AdvancesAt k junk most least (discard Rule.advance >>= second)
      (discard Rule.advance >>= second') :=
  show AdvancesAt k junk most least (Rule.advance >>= fun _ => second ())
      (Rule.advance >>= fun _ => second' ()) from
    bindAdvance hKind fun c hc _ => h c hc

/-- A rule that reads one token at least leaves fewer of them to what comes next, which is what the
induction is on. -/
theorem bindRead {first first' : Rule Result} {second second' : Result → Rule Next}
    (hFirst : AdvancesAt k junk most 1 first first')
    (hSecond : ∀ c < most, ∀ result,
      AdvancesAlike junk c (least - 1) (second result) (second' result)) :
    AdvancesAt k junk most least (first >>= second) (first' >>= second') :=
  fun r hEnded hMost hKind =>
    (Agree.bind hMost (hFirst r hEnded hMost hKind) hSecond).mono (by omega)

theorem before {next : TokenKind} {rule rule' : Rule Result}
    (h : AdvancesAt k junk most least rule rule') :
    AdvancesBefore k next junk most least rule rule' :=
  fun r hEnded hMost hKind _ => h r hEnded hMost hKind

end AdvancesAt

/-- Behind a name comes the next token. -/
theorem AdvancesBefore.bindName {Result : Type} {junk : List Token} {most least : Nat}
    {name : String} {next : TokenKind} {second second' : Ident → Rule Result}
    (h : ∀ c < most, ∀ span,
      AdvancesAt next junk c (least - 1) (second ⟨name, span⟩) (second' ⟨name, span⟩)) :
    AdvancesBefore (.name name) next junk most least (Rule.expectName >>= second)
      (Rule.expectName >>= second') := by
  intro r hEnded hMost hKind hNext
  have hRun : ∀ (second : Ident → Rule Result) (r : Reading),
      r.cursor.current.kind = .name name → (Rule.expectName >>= second) r =
        second ⟨name, r.cursor.current.span⟩ { r with cursor := r.cursor.advance } := by
    rintro second ⟨file, ⟨previous, ⟨kind, span⟩, upcoming⟩, report, depth⟩ hKind
    obtain rfl : kind = .name name := hKind
    rfl
  have hEnd : r.cursor.current.kind ≠ .mark .endOfInput := by simp [hKind]
  obtain ⟨hMoves, hAhead⟩ := hEnded.movesTo_advance hEnd
  have hAfter : r.cursor.advance.current.kind = next := by
    obtain ⟨t, ts, hUpcoming⟩ := hEnded.exists_next hEnd
    rw [Reading.nextKind, hUpcoming] at hNext
    rwa [Cursor.advance, hUpcoming]
  rw [hRun second r hKind, hRun second' (r.pad junk) hKind, hEnded.advance_pad hEnd]
  refine ((h (r.ahead - 1) (by omega) r.cursor.current.span _ hMoves.ended ?_ hAfter).before
    hMoves (Nat.le_of_eq hAhead)).mono (by omega)
  omega

namespace AdvancesAlike

variable {Result : Type} {junk : List Token} {most least : Nat}

/-- Reading a mark advances by one if the mark is there, and by nothing if it is not. -/
theorem bindEat {mark : Mark} (hMark : mark ≠ .endOfInput) {second second' : Bool → Rule Result}
    (hFound : ∀ c < most, AdvancesAlike junk c (least - 1) (second true) (second' true))
    (hMissing : AdvancesAlike junk most least (second false) (second' false)) :
    AdvancesAlike junk most least (Rule.eat mark >>= second) (Rule.eat mark >>= second') := by
  intro r hEnded hMost
  have hRun : ∀ (second : Bool → Rule Result) (r : Reading), (Rule.eat mark >>= second) r =
      if r.cursor.current.kind = .mark mark then (Rule.advance >>= fun _ => second true) r
      else second false r := by
    intro second r
    change EStateM.bind (Rule.eat mark) second r = _
    rw [EStateM.bind, ReadsOn.eat_eq]
    by_cases hKind : r.cursor.current.kind = .mark mark
    · rw [if_pos hKind, if_pos hKind]
      rfl
    · rw [if_neg hKind, if_neg hKind]
  rw [hRun, hRun]
  by_cases hKind : r.cursor.current.kind = .mark mark
  · rw [if_pos hKind, if_pos (show (r.pad junk).cursor.current.kind = _ from hKind)]
    refine AdvancesAt.bindAdvance (k := .mark mark) ?_ (fun c hc _ => hFound c hc) r hEnded hMost
      hKind
    exact fun hEq => hMark (TokenKind.mark.inj hEq)
  · rw [if_neg hKind, if_neg (show ¬ (r.pad junk).cursor.current.kind = _ from hKind)]
    exact hMissing r hEnded hMost

theorem expect {mark : Mark} (hMark : mark ≠ .endOfInput) :
    AdvancesAlike junk most 1 (Rule.expect mark) (Rule.expect mark) :=
  bindEat hMark (fun _ _ => pure ()) (bindPeek fun _ => (unexpected _).here)

theorem bindExpect {mark : Mark} (hMark : mark ≠ .endOfInput) {second second' : Unit → Rule Result}
    (h : ∀ c < most, AdvancesAlike junk c (least - 1) (second ()) (second' ())) :
    AdvancesAlike junk most least (Rule.expect mark >>= second) (Rule.expect mark >>= second') :=
  (expect hMark).bindRead fun c hc _ => h c hc

/-- Reading a name advances by one token, or stops with a problem. -/
theorem expectName : AdvancesAlike junk most 1 Rule.expectName Rule.expectName := by
  refine bindPeek fun k => ?_
  split
  next => exact .bindAdvance nofun fun _ _ _ => pure _
  next =>
    split
    · exact (unexpected _).here
    · exact (unexpected _).here

theorem bindName {second second' : Ident → Rule Result}
    (h : ∀ c < most, ∀ name, AdvancesAlike junk c (least - 1) (second name) (second' name)) :
    AdvancesAlike junk most least (Rule.expectName >>= second) (Rule.expectName >>= second') :=
  expectName.bindRead h

/-- Reading the name of a field advances by one token, or stops with a problem. -/
theorem expectFieldName : AdvancesAlike junk most 1 Rule.expectFieldName Rule.expectFieldName := by
  refine bindPeek fun k => ?_
  split
  next => exact .bindAdvance nofun fun _ _ _ => pure _
  next => exact .bindAdvance nofun fun _ _ _ => pure _
  next =>
    split
    next word hWord =>
      refine .bindAdvance ?_ fun _ _ _ => pure _
      rw [TokenKind.eq_of_keyword? hWord]
      nofun
    · exact (unexpected _).here

/-- The end of a statement is read without looking behind the end mark. -/
theorem expectStatementEnd :
    AdvancesAlike junk most 0 Rule.expectStatementEnd Rule.expectStatementEnd := by
  refine bindPeek fun k => ?_
  split
  · exact (pure ()).here
  · exact (pure ()).here
  · exact skipNewlines.here
  · exact (problem _ _).here

theorem bindStatementEnd {second second' : Unit → Rule Result}
    (h : AdvancesAlike junk most least (second ()) (second' ())) :
    AdvancesAlike junk most least (Rule.expectStatementEnd >>= second)
      (Rule.expectStatementEnd >>= second') := expectStatementEnd.bind fun _ => h

section

variable {Item : Type} {close : Mark} {item item' : List Item → Rule Item}

/-- Each item reads a token, so that there are rounds enough. -/
theorem separated
    (hItem : ∀ c ≤ most, ∀ before, AdvancesAlike junk c 1 (item before) (item' before))
    {n n' : Nat} (hRounds : most < n) (hRounds' : most < n') (before : List Item) :
    AdvancesAlike junk most 0 (Rule.separated close item n before)
      (Rule.separated close item' n' before) := by
  induction n generalizing most n' before with
  | zero => exact (Nat.not_lt_zero _ hRounds).elim
  | succ n ih =>
      obtain ⟨n', rfl⟩ := Nat.exists_eq_add_of_lt (Nat.zero_lt_of_lt hRounds')
      rw [Nat.zero_add] at hRounds' ⊢
      refine bindAt fun closed => ite (fun _ => pure before) fun _ => ?_
      refine (hItem most (Nat.le_refl _) before).bindRead fun c hc next => bindSkip ?_
      refine bindEat (by simp) (fun d hd => bindSkip ?_) (pure _)
      exact ih (fun e he => hItem e (by omega)) (by omega) (by omega) _

/-- Items between commas advance alike, since there are enough rounds for the tokens that are
left. -/
theorem separatedUpTo (hClose : close ≠ .endOfInput)
    (hItem : ∀ c ≤ most, ∀ before, AdvancesAlike junk c 1 (item before) (item' before)) :
    AdvancesAlike junk most 0 (Rule.separatedUpTo close item) (Rule.separatedUpTo close item') := by
  refine bindSkip (bindRounds fun c hc n n' hn hn' => ?_)
  refine (separated (fun d hd => hItem d (by omega)) (by omega) (by omega) []).bind fun items => ?_
  exact bindExpect hClose fun _ _ => pure items

end

/-- One level of expression, unless there are too many around it. -/
theorem nested {rule rule' : Rule Result} (h : AdvancesAlike junk most least rule rule') :
    AdvancesAlike junk most least (Grammar.nested rule) (Grammar.nested rule') := by
  refine bindGet fun around _ _ => ?_
  refine ite (p := Grammar.maxDepth ≤ around.depth) (fun _ => unexpected _) fun _ => ?_
  intro r hEnded hMost
  have hInside := h { r with depth := around.depth + 1 } hEnded hMost
  dsimp only [Reading.pad] at hInside ⊢
  cases hRun : rule { r with depth := around.depth + 1 } with
  | ok result s =>
      rw [hRun] at hInside
      obtain ⟨hOther, hMoves, hLeast⟩ := hInside
      rw [hOther]
      exact ⟨rfl, ⟨hMoves.ended, hMoves.ahead, hMoves.total, hMoves.counted⟩, hLeast⟩
  | error failure s =>
      rw [hRun] at hInside
      obtain ⟨hOther, hMoves, hProblem⟩ := hInside
      rw [hOther]
      exact ⟨rfl, ⟨hMoves.ended, hMoves.ahead, hMoves.total, hMoves.counted⟩, hProblem⟩

end AdvancesAlike

end Metagen.Script
