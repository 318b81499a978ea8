import Metagen.Proofs.Script.Rules
import Metagen.Proofs.Script.Written

/-! What rules of the grammar have read when no problem was reported. A rule either reports a
problem, or what it yields spells the tokens that it has read. Because a report never shrinks, only
readings without problems matter: nothing has to be known of those that go on after a problem but
that they report one at the end.

What is known when a rule starts is a condition on the number of tokens that are still to be read,
which holds unless a problem has been reported before. -/

namespace Metagen.Script

namespace Reading

/-- The kinds of the tokens from the cursor on, but for line ends. -/
def left (r : Reading) : List TokenKind :=
  ((r.cursor.current :: r.cursor.upcoming).map (·.kind)).filter (· ≠ .mark .newline)

/-- No problem has been reported. -/
def Clean (r : Reading) : Prop := r.report.total = 0

/-- The last token, and only the last one, is the end mark. -/
def Ended (r : Reading) : Prop :=
  ∃ more last, r.cursor.current :: r.cursor.upcoming = more ++ [last] ∧
    last.kind = .mark .endOfInput ∧ ∀ t ∈ more, t.kind ≠ .mark .endOfInput

end Reading

/-- What comes of a rule: a problem, or a good result of the tokens that have been read. -/
def Consumes {Result : Type} (good : Result → List TokenKind → Prop) (r : Reading) :
    EStateM.Result Unit Reading Result → Prop
  | .ok result r' => r'.Ended ∧
      (r'.Clean → r.Clean ∧ ∃ ks, r.left = ks ++ r'.left ∧ good result ks)
  | .error _ r' => r'.Ended ∧ ¬ r'.Clean

/-- Given what is known of the number of tokens to be read, the rule reports a problem, or its
result is good. -/
def SoundRule {Result : Type} (known : Nat → Prop) (good : Result → List TokenKind → Prop)
    (rule : Rule Result) : Prop :=
  ∀ r, r.Ended → (r.Clean → known r.left.length) → Consumes good r (rule r)

/-- The rule does so from a token of this kind on. -/
def SoundAt {Result : Type} (k : TokenKind) (known : Nat → Prop)
    (good : Result → List TokenKind → Prop) (rule : Rule Result) : Prop :=
  ∀ r, r.Ended → (r.Clean → known r.left.length) → r.cursor.current.kind = k →
    Consumes good r (rule r)

namespace Reading

variable {r : Reading}

theorem Ended.left_ne_nil (h : r.Ended) : r.left ≠ [] := by
  obtain ⟨more, last, hTokens, hLast, -⟩ := h
  rw [left, hTokens]
  simp [hLast]

/-- Behind a token that is not the end mark, there is another one. -/
theorem Ended.exists_next (h : r.Ended) (hKind : r.cursor.current.kind ≠ .mark .endOfInput) :
    ∃ t ts, r.cursor.upcoming = t :: ts := by
  obtain ⟨more, last, hTokens, hLast, -⟩ := h
  cases more with
  | nil =>
      obtain ⟨hCurrent, -⟩ := List.cons.inj hTokens
      exact (hKind (hCurrent ▸ hLast)).elim
  | cons first more =>
      obtain ⟨-, hRest⟩ := List.cons.inj hTokens
      exact List.exists_cons_of_ne_nil (hRest ▸ List.append_ne_nil_of_right_ne_nil more (by simp))

/-- Tokens that end with an end mark still do behind a token that is none. -/
theorem Ended.advance (h : r.Ended) (hKind : r.cursor.current.kind ≠ .mark .endOfInput) :
    Ended { r with cursor := r.cursor.advance } := by
  obtain ⟨t, ts, hUpcoming⟩ := h.exists_next hKind
  obtain ⟨more, last, hTokens, hLast, hMore⟩ := h
  rw [hUpcoming] at hTokens
  have hCursor : r.cursor.advance = ⟨some r.cursor.current.span, t, ts⟩ := by
    rw [Cursor.advance, hUpcoming]
  rw [hCursor]
  cases more with
  | nil => cases (List.cons.inj hTokens).2
  | cons first more =>
      obtain ⟨-, hRest⟩ := List.cons.inj hTokens
      exact ⟨more, last, hRest, hLast, fun u hu => hMore u (List.mem_cons_of_mem _ hu)⟩

/-- Reading a token that is neither a line end nor the end mark takes it off the tokens that are
left. -/
theorem Ended.left_advance (h : r.Ended) (hKind : r.cursor.current.kind ≠ .mark .endOfInput)
    (hLine : r.cursor.current.kind ≠ .mark .newline) :
    r.left = r.cursor.current.kind :: left { r with cursor := r.cursor.advance } := by
  obtain ⟨t, ts, hUpcoming⟩ := h.exists_next hKind
  have hCursor : r.cursor.advance = ⟨some r.cursor.current.span, t, ts⟩ := by
    rw [Cursor.advance, hUpcoming]
  simp [left, hCursor, hUpcoming, hLine]

/-- Behind the end mark there is nothing. -/
theorem Ended.upcoming_of_end (h : r.Ended) (hKind : r.cursor.current.kind = .mark .endOfInput) :
    r.cursor.upcoming = [] := by
  obtain ⟨more, last, hTokens, -, hMore⟩ := h
  cases more with
  | nil => exact (List.cons.inj hTokens).2
  | cons first more =>
      obtain ⟨rfl, -⟩ := List.cons.inj hTokens
      exact (hMore _ List.mem_cons_self hKind).elim

/-- At the end, only the end mark is left. -/
theorem Ended.left_of_end (h : r.Ended) (hKind : r.cursor.current.kind = .mark .endOfInput) :
    r.left = [.mark .endOfInput] := by
  simp [left, h.upcoming_of_end hKind, hKind]

theorem left_length_le (r : Reading) : r.left.length ≤ r.cursor.upcoming.length + 1 := by
  have hFilter := List.length_filter_le (fun k : TokenKind => decide (k ≠ .mark .newline))
    ((r.cursor.current :: r.cursor.upcoming).map (·.kind))
  rwa [List.length_map, List.length_cons] at hFilter

/-- Passing over line ends leaves tokens that end with the end mark, and uses up line ends alone. -/
theorem passNewlines_left (file : SourceFile) (report : Report) (depth : Nat)
    (previous : Option Span) (current : Token) (upcoming : List Token)
    (h : Ended ⟨file, ⟨previous, current, upcoming⟩, report, depth⟩) :
    Ended ⟨file, Cursor.passNewlines previous current upcoming, report, depth⟩ ∧
      left ⟨file, ⟨previous, current, upcoming⟩, report, depth⟩ =
        left ⟨file, Cursor.passNewlines previous current upcoming, report, depth⟩ := by
  induction upcoming generalizing previous current with
  | nil => exact ⟨h, rfl⟩
  | cons t ts ih =>
      unfold Cursor.passNewlines
      split
      next hLine =>
        have hNext := h.advance (show current.kind ≠ _ by simp [hLine])
        obtain ⟨hEnded, hLeft⟩ := ih _ _ hNext
        refine ⟨hEnded, Eq.trans ?_ hLeft⟩
        simp [left, hLine]
      next => exact ⟨h, rfl⟩

theorem Ended.skipNewlines (h : r.Ended) :
    Ended { r with cursor := r.cursor.skipNewlines } ∧
      r.left = left { r with cursor := r.cursor.skipNewlines } :=
  passNewlines_left _ _ _ _ _ _ h

/-- Passing over a statement leaves tokens that end with the end mark. -/
theorem passStatement_ended (file : SourceFile) (report : Report) (depth : Nat)
    (previous : Option Span) (current : Token) (upcoming : List Token)
    (h : Ended ⟨file, ⟨previous, current, upcoming⟩, report, depth⟩) :
    Ended ⟨file, Cursor.passStatement previous current upcoming, report, depth⟩ := by
  induction upcoming generalizing previous current with
  | nil => exact h
  | cons t ts ih =>
      unfold Cursor.passStatement
      split
      next => exact h
      next hEnd =>
        have hNext := h.advance (show current.kind ≠ _ from hEnd)
        split
        next => exact (passNewlines_left _ _ _ _ _ _ hNext).1
        next =>
          split
          next => exact h
          next => exact ih _ _ hNext

end Reading

namespace Consumes

variable {Result : Type} {good better : Result → List TokenKind → Prop} {r : Reading}
  {outcome : EStateM.Result Unit Reading Result}

/-- What a rule has consumed may be replaced by what follows from it, if nothing was reported. -/
theorem imp (h : Consumes good r outcome)
    (hImp : r.Clean → ∀ result ks, good result ks → better result ks) :
    Consumes better r outcome := by
  cases outcome with
  | ok result r' =>
      refine ⟨h.1, fun hClean => ?_⟩
      obtain ⟨hBefore, ks, hLeft, hGood⟩ := h.2 hClean
      exact ⟨hBefore, ks, hLeft, hImp hBefore _ _ hGood⟩
  | error failure r' => exact h

/-- Tokens that were read before. -/
theorem before {r₀ : Reading} (r' : Reading) (ks : List TokenKind) (hClean : r'.Clean → r₀.Clean)
    (hLeft : r₀.left = ks ++ r'.left)
    (h : Consumes (fun result more => good result (ks ++ more)) r' outcome) :
    Consumes good r₀ outcome := by
  cases outcome with
  | ok result r'' =>
      refine ⟨h.1, fun hAfter => ?_⟩
      obtain ⟨hBefore, more, hMore, hGood⟩ := h.2 hAfter
      exact ⟨hClean hBefore, ks ++ more, by rw [hLeft, hMore, List.append_assoc], hGood⟩
  | error failure r' => exact h

/-- After a problem, nothing is asked of a result. -/
theorem of_problem {other : Result → List TokenKind → Prop} {r₀ : Reading} (hProblem : ¬ r.Clean)
    (h : Consumes other r outcome) : Consumes good r₀ outcome := by
  cases outcome with
  | ok result r' => exact ⟨h.1, fun hClean => (hProblem (h.2 hClean).1).elim⟩
  | error failure r' => exact h

/-- A sequence: what is known after the first rule is what is known before it, and that its result
is good. -/
theorem bind {Next : Type} {known : Nat → Prop} {fine : Next → List TokenKind → Prop}
    {first : Rule Result} {second : Result → Rule Next}
    (hKnown : r.Clean → known r.left.length) (hFirst : Consumes good r (first r))
    (hSecond : ∀ result ks, SoundRule (fun m => known (ks.length + m) ∧ good result ks)
      (fun next more => fine next (ks ++ more)) (second result)) :
    Consumes fine r ((first >>= second) r) := by
  change Consumes fine r (EStateM.bind first second r)
  unfold EStateM.bind
  cases hRun : first r with
  | error failure r' =>
      rw [hRun] at hFirst
      exact hFirst
  | ok result r' =>
      rw [hRun] at hFirst
      obtain ⟨hEnded', hGood⟩ := hFirst
      by_cases hClean : r'.Clean
      · obtain ⟨hBefore, ks, hLeft, hResult⟩ := hGood hClean
        refine .before r' ks (fun _ => hBefore) hLeft
          (hSecond result ks r' hEnded' fun _ => ⟨?_, hResult⟩)
        have hNumber := hKnown hBefore
        rwa [hLeft, List.length_append] at hNumber
      · exact (hSecond result [] r' hEnded' fun h => (hClean h).elim).of_problem hClean

end Consumes

namespace SoundRule

variable {Result Next : Type} {known : Nat → Prop} {k : TokenKind}
  {good : Result → List TokenKind → Prop} {fine : Next → List TokenKind → Prop}
  {rule : Rule Result}

theorem here (h : SoundRule known good rule) : SoundAt k known good rule :=
  fun r hEnded hKnown _ => h r hEnded hKnown

/-- What is known before a rule is known of its result, too. -/
theorem imp {better : Result → List TokenKind → Prop} (h : SoundRule known good rule)
    (hImp : ∀ m, known m → ∀ result ks, good result ks → better result ks) :
    SoundRule known better rule :=
  fun r hEnded hKnown => (h r hEnded hKnown).imp fun hClean => hImp _ (hKnown hClean)

theorem weaken {less : Nat → Prop} (h : SoundRule less good rule) (hImp : ∀ m, known m → less m) :
    SoundRule known good rule :=
  fun r hEnded hKnown => h r hEnded fun hClean => hImp _ (hKnown hClean)

theorem pure {result : Result} (h : ∀ m, known m → good result []) :
    SoundRule known good (pure result) :=
  fun _ hEnded hKnown => ⟨hEnded, fun hClean => ⟨hClean, [], rfl, h _ (hKnown hClean)⟩⟩

/-- A rule gives up silently only if it cannot be reached. -/
theorem fail (h : ∀ m, known (m + 1) → False) : SoundRule known good Rule.fail := by
  intro r hEnded hKnown
  refine ⟨hEnded, fun hClean => ?_⟩
  cases hLeft : r.left with
  | nil => exact hEnded.left_ne_nil hLeft
  | cons first rest =>
      have hNumber := hKnown hClean
      rw [hLeft] at hNumber
      exact h _ hNumber

/-- What is known after the first rule is what is known before it, and that its result is good. -/
theorem bind {first : Rule Result} {second : Result → Rule Next}
    (hFirst : SoundRule known good first)
    (hSecond : ∀ result ks, SoundRule (fun m => known (ks.length + m) ∧ good result ks)
      (fun next more => fine next (ks ++ more)) (second result)) :
    SoundRule known fine (first >>= second) :=
  fun r hEnded hKnown => .bind hKnown (hFirst r hEnded hKnown) hSecond

theorem ite {p : Prop} [Decidable p] {other : Rule Result} (h : p → SoundRule known good rule)
    (hOther : ¬ p → SoundRule known good other) :
    SoundRule known good (if p then rule else other) := by
  split
  next hp => exact h hp
  next hp => exact hOther hp

/-- A rule that only looks at the reading. -/
theorem bindLook {look : Rule Result} {second : Result → Rule Next}
    (hLook : ∀ r, ∃ result, look r = .ok result r)
    (h : ∀ result, SoundRule known fine (second result)) :
    SoundRule known fine (look >>= second) := by
  intro r hEnded hKnown
  obtain ⟨result, hRun⟩ := hLook r
  change Consumes fine r (EStateM.bind look second r)
  rw [EStateM.bind, hRun]
  exact h result r hEnded hKnown

theorem bindPeek {second : TokenKind → Rule Result} (h : ∀ k, SoundAt k known good (second k)) :
    SoundRule known good (Rule.peek >>= second) :=
  fun r hEnded hKnown => h r.cursor.current.kind r hEnded hKnown rfl

theorem bindCurrentSpan {second : Span → Rule Result}
    (h : ∀ span, SoundRule known good (second span)) :
    SoundRule known good (Rule.currentSpan >>= second) :=
  fun r hEnded hKnown => h _ r hEnded hKnown

theorem bindPreviousSpan {second : Span → Rule Result}
    (h : ∀ span, SoundRule known good (second span)) :
    SoundRule known good (Rule.previousSpan >>= second) :=
  fun r hEnded hKnown => h _ r hEnded hKnown

/-- There are not more tokens to be read than rounds. -/
theorem bindRounds {second : Nat → Rule Result}
    (h : ∀ n, SoundRule (fun m => known m ∧ m ≤ n) good (second n)) :
    SoundRule known good (Rule.rounds >>= second) := by
  refine fun r hEnded hKnown => h _ r hEnded fun hClean => ⟨hKnown hClean, ?_⟩
  have hNumber := r.left_length_le
  omega

theorem problemAt (code : ErrorCode) (message : String) (span : Span)
    {good : Unit → List TokenKind → Prop} :
    SoundRule known good (Rule.problemAt code message span) :=
  fun _ hEnded _ => ⟨hEnded, fun hClean => (Nat.succ_ne_zero _ hClean).elim⟩

theorem problem (code : ErrorCode) (message : String) {good : Unit → List TokenKind → Prop} :
    SoundRule known good (Rule.problem code message) := bindCurrentSpan fun _ => problemAt _ _ _

/-- What comes after a problem cannot be good. -/
theorem bindProblemAt {code : ErrorCode} {message : String} {span : Span}
    {second : Unit → Rule Result} (h : SoundRule (fun _ => False) good (second ())) :
    SoundRule known good (Rule.problemAt code message span >>= second) := by
  have hProblem : SoundRule known (fun _ _ => False) (Rule.problemAt code message span) :=
    problemAt _ _ _
  refine hProblem.bind fun _ ks => ?_
  refine fun r hEnded hKnown => (h r hEnded fun hClean => (hKnown hClean).2).of_problem ?_
  exact fun hClean => (hKnown hClean).2

/-- A rule that reports a problem is sound whatever it goes on with, since soundness asks nothing
once there is one. -/
theorem bindProblem {code : ErrorCode} {message : String} {second : Unit → Rule Result}
    (h : SoundRule (fun _ => False) good (second ())) :
    SoundRule known good (Rule.problem code message >>= second) := by
  unfold Rule.problem
  rw [bind_assoc]
  exact bindCurrentSpan fun _ => bindProblemAt h

theorem unexpected (message : String) : SoundRule known good (Rule.unexpected message) :=
  bindProblem (fail fun _ h => h)

/-- A problem that is reported only if there is one. -/
theorem problemIf {p : Prop} [Decidable p] {code : ErrorCode} {message : String} {span : Span}
    {rest : Rule Result} (h : SoundRule (fun m => known m ∧ ¬ p) good rest) :
    SoundRule known good (do
      if p then Rule.problemAt code message span
      rest) := by
  split
  next hp => exact bindProblemAt (h.weaken fun m hm => hm.elim)
  next hp => exact h.weaken fun m hm => ⟨hm, hp⟩

theorem bindSkip {second : Unit → Rule Result} (h : SoundRule known good (second ())) :
    SoundRule known good (Rule.skipNewlines >>= second) := by
  intro r hEnded hKnown
  obtain ⟨hEnded', hLeft⟩ := hEnded.skipNewlines
  rw [hLeft] at hKnown
  exact .before { r with cursor := r.cursor.skipNewlines } [] id hLeft (h _ hEnded' hKnown)

end SoundRule

namespace SoundAt

variable {Result Next : Type} {known : Nat → Prop} {k : TokenKind}
  {good : Result → List TokenKind → Prop} {fine : Next → List TokenKind → Prop}

/-- Looking at the next token changes nothing of what was written. -/
theorem bindPeekNext {second : TokenKind → Rule Result}
    (h : ∀ next, SoundAt k known good (second next)) :
    SoundAt k known good (Rule.peekNext >>= second) := by
  intro r hEnded hKnown hKind
  obtain ⟨file, ⟨previous, current, upcoming⟩, report, depth⟩ := r
  cases upcoming with
  | nil => exact h _ _ hEnded hKnown hKind
  | cons next ts => exact h _ _ hEnded hKnown hKind

theorem bindCurrentSpan {second : Span → Rule Result}
    (h : ∀ span, SoundAt k known good (second span)) :
    SoundAt k known good (Rule.currentSpan >>= second) :=
  fun r hEnded hKnown hKind => h _ r hEnded hKnown hKind

/-- The token at the cursor is read; it is neither the end mark nor a line end. -/
theorem bindAdvance {second : Token → Rule Result} (hKind : k ≠ .mark .endOfInput)
    (hLine : k ≠ .mark .newline)
    (h : ∀ t, SoundRule (fun m => known (m + 1)) (fun result ks => good result (k :: ks))
      (second t)) :
    SoundAt k known good (Rule.advance >>= second) := by
  intro r hEnded hKnown hCurrent
  subst hCurrent
  have hLeft := hEnded.left_advance hKind hLine
  rw [hLeft] at hKnown
  exact .before { r with cursor := r.cursor.advance } [_] id hLeft
    (h r.cursor.current _ (hEnded.advance hKind) hKnown)

theorem bindDiscard {second : Unit → Rule Result} (hKind : k ≠ .mark .endOfInput)
    (hLine : k ≠ .mark .newline)
    (h : SoundRule (fun m => known (m + 1)) (fun result ks => good result (k :: ks)) (second ())) :
    SoundAt k known good (discard Rule.advance >>= second) :=
  show SoundAt k known good (Rule.advance >>= fun _ => second ()) from
    bindAdvance hKind hLine fun _ => h

end SoundAt

theorem SoundAt.weaken {Result : Type} {known less : Nat → Prop} {k : TokenKind}
    {good : Result → List TokenKind → Prop} {rule : Rule Result} (h : SoundAt k less good rule)
    (hImp : ∀ m, known m → less m) : SoundAt k known good rule :=
  fun r hEnded hKnown => h r hEnded fun hClean => hImp _ (hKnown hClean)

/-- Rules from a known token on may be followed by sound rules, and what both have read is written
in a row. -/
theorem SoundAt.bind {Result Next : Type} {known : Nat → Prop} {k : TokenKind}
    {good : Result → List TokenKind → Prop} {fine : Next → List TokenKind → Prop}
    {first : Rule Result} {second : Result → Rule Next} (hFirst : SoundAt k known good first)
    (hSecond : ∀ result ks, SoundRule (fun m => known (ks.length + m) ∧ good result ks)
      (fun next more => fine next (ks ++ more)) (second result)) :
    SoundAt k known fine (first >>= second) := by
  intro r hEnded hKnown hKind
  exact Consumes.bind hKnown (hFirst r hEnded hKnown hKind) hSecond

/-- The kind of the token after the one at the cursor. -/
def Reading.nextKind (r : Reading) : TokenKind :=
  match r.cursor.upcoming with
  | t :: _ => t.kind
  | [] => .mark .endOfInput

/-- Given the kinds of the token at the cursor and of the next one, the rule reports a problem, or
its result is good. -/
def SoundBefore {Result : Type} (k next : TokenKind) (known : Nat → Prop)
    (good : Result → List TokenKind → Prop) (rule : Rule Result) : Prop :=
  ∀ r, r.Ended → (r.Clean → known r.left.length) → r.cursor.current.kind = k →
    r.nextKind = next → Consumes good r (rule r)

/-- Looking at the token after the next one tells what comes behind the known one. -/
theorem SoundAt.bindNext {Result : Type} {k : TokenKind} {known : Nat → Prop}
    {good : Result → List TokenKind → Prop} {second : TokenKind → Rule Result}
    (h : ∀ next, SoundBefore k next known good (second next)) :
    SoundAt k known good (Rule.peekNext >>= second) := by
  intro r hEnded hKnown hKind
  obtain ⟨file, ⟨previous, current, upcoming⟩, report, depth⟩ := r
  cases upcoming with
  | nil => exact h _ _ hEnded hKnown hKind rfl
  | cons next ts => exact h _ _ hEnded hKnown hKind rfl

/-- Behind a name comes the next token. -/
theorem SoundBefore.bindName {Result : Type} {name : String} {next : TokenKind} {known : Nat → Prop}
    {good : Result → List TokenKind → Prop} {second : Ident → Rule Result}
    (h : ∀ span, SoundAt next (fun m => known (m + 1))
      (fun result ks => good result (.name name :: ks)) (second ⟨name, span⟩)) :
    SoundBefore (.name name) next known good (Rule.expectName >>= second) := by
  intro r hEnded hKnown hKind hNext
  have hRun : (Rule.expectName >>= second) r =
      second ⟨name, r.cursor.current.span⟩ { r with cursor := r.cursor.advance } := by
    obtain ⟨file, ⟨previous, ⟨kind, span⟩, upcoming⟩, report, depth⟩ := r
    obtain rfl : kind = .name name := hKind
    rfl
  have hEnd : r.cursor.current.kind ≠ .mark .endOfInput := by simp [hKind]
  have hLeft := hEnded.left_advance hEnd (by simp [hKind])
  have hAfter : r.cursor.advance.current.kind = next := by
    obtain ⟨t, ts, hUpcoming⟩ := hEnded.exists_next hEnd
    rw [Reading.nextKind, hUpcoming] at hNext
    rwa [Cursor.advance, hUpcoming]
  rw [hLeft] at hKnown
  rw [hKind] at hLeft
  rw [hRun]
  exact .before { r with cursor := r.cursor.advance } [_] id hLeft
    (h _ _ (hEnded.advance hEnd) hKnown hAfter)

theorem TokenKind.eq_of_keyword? {k : TokenKind} {word : Keyword} (h : k.keyword? = some word) :
    k = .mark (.keyword word) := by
  unfold TokenKind.keyword? at h
  split at h
  · rw [Option.some.inj h]
  · cases h

namespace SoundRule

variable {Result : Type} {known : Nat → Prop} {k : TokenKind}
  {good : Result → List TokenKind → Prop} {rule : Rule Result}

/-- A mark is read if it stands at the cursor. -/
theorem bindEat {mark : Mark} (hMark : mark ≠ .endOfInput) (hLine : mark ≠ .newline)
    {second : Bool → Rule Result}
    (hFound : SoundRule (fun m => known (m + 1)) (fun result ks => good result (.mark mark :: ks))
      (second true))
    (hMissing : SoundRule known good (second false)) :
    SoundRule known good (Rule.eat mark >>= second) := by
  intro r hEnded hKnown
  change Consumes good r (EStateM.bind (Rule.eat mark) second r)
  rw [EStateM.bind, ReadsOn.eat_eq]
  by_cases hKind : r.cursor.current.kind = .mark mark
  · rw [if_pos hKind]
    have hEnd : r.cursor.current.kind ≠ .mark .endOfInput := by simpa [hKind] using hMark
    have hNoLine : r.cursor.current.kind ≠ .mark .newline := by simpa [hKind] using hLine
    have hLeft := hEnded.left_advance hEnd hNoLine
    rw [hLeft] at hKnown
    rw [hKind] at hLeft
    exact .before { r with cursor := r.cursor.advance } [_] id hLeft
      (hFound _ (hEnded.advance hEnd) hKnown)
  · rw [if_neg hKind]
    exact hMissing r hEnded hKnown

/-- What comes after a rule that reads certain tokens if it does not give up. -/
theorem bindRead {Next : Type} {first : Rule Next} {second : Next → Rule Result}
    {fine : Next → List TokenKind → Prop} (hFirst : SoundRule known fine first)
    (h : ∀ next ks, fine next ks →
      SoundRule (fun m => known (ks.length + m)) (fun result more => good result (ks ++ more))
        (second next))
    (hNone : ∀ next, ∃ ks, fine next ks) : SoundRule known good (first >>= second) := by
  refine hFirst.bind fun next ks => ?_
  intro r hEnded hKnown
  by_cases hClean : r.Clean
  · exact h next ks (hKnown hClean).2 r hEnded fun hClean => (hKnown hClean).1
  · obtain ⟨some, hSome⟩ := hNone next
    exact (h next some hSome r hEnded fun h => (hClean h).elim).of_problem hClean

/-- A mark that has to come is read. -/
theorem bindExpect {mark : Mark} (hMark : mark ≠ .endOfInput) (hLine : mark ≠ .newline)
    {second : Unit → Rule Result}
    (h : SoundRule (fun m => known (m + 1)) (fun result ks => good result (.mark mark :: ks))
      (second ())) :
    SoundRule known good (Rule.expect mark >>= second) := by
  have hExpect : SoundRule known (fun _ ks => ks = [.mark mark]) (Rule.expect mark) :=
    bindEat hMark hLine (pure fun _ _ => rfl) (bindPeek fun _ => (unexpected _).here)
  refine hExpect.bindRead ?_ fun _ => ⟨_, rfl⟩
  rintro ⟨⟩ _ rfl
  exact h.weaken fun m hm => by rwa [Nat.add_comm] at hm

/-- A name that was read stands in front of what the rest has read. -/
theorem bindName {second : Ident → Rule Result}
    (h : ∀ name : Ident, SoundRule (fun m => known (m + 1))
      (fun result ks => good result (.name name.name :: ks)) (second name)) :
    SoundRule known good (Rule.expectName >>= second) := by
  have hName : SoundRule known (fun (name : Ident) ks => ks = [.name name.name])
      Rule.expectName := by
    refine bindPeek fun k => ?_
    split
    next name => exact .bindAdvance nofun nofun fun _ => pure fun _ _ => rfl
    next =>
      split
      · exact (unexpected _).here
      · exact (unexpected _).here
  refine hName.bindRead ?_ fun _ => ⟨_, rfl⟩
  rintro name _ rfl
  exact (h name).weaken fun m hm => by rwa [Nat.add_comm] at hm

/-- The name of a field stands in front of what the rest has read, spelled as a name or as a
word. -/
theorem bindKey {second : Ident → Rule Result}
    (h : ∀ (name : Ident) (k : TokenKind), k.SpellsKey name.name →
      SoundRule (fun m => known (m + 1)) (fun result ks => good result (k :: ks))
        (second name)) :
    SoundRule known good (Rule.expectFieldName >>= second) := by
  have hKey : SoundRule known (fun (name : Ident) ks => ∃ k, ks = [k] ∧ k.SpellsKey name.name)
      Rule.expectFieldName := by
    refine bindPeek fun k => ?_
    split
    next name => exact .bindAdvance nofun nofun fun _ => pure fun _ _ => ⟨.name name, rfl, rfl⟩
    next name => exact .bindAdvance nofun nofun fun _ => pure fun _ _ => ⟨.text name, rfl, rfl⟩
    next =>
      split
      next word hWord =>
        obtain rfl : k = .mark (.keyword word) := TokenKind.eq_of_keyword? hWord
        exact .bindAdvance nofun nofun fun _ => pure fun _ _ => ⟨_, rfl, rfl⟩
      · exact (unexpected _).here
  refine hKey.bindRead ?_ fun name => ⟨[.name name.name], .name name.name, rfl, rfl⟩
  rintro name _ ⟨k, rfl, hSpells⟩
  exact (h name k hSpells).weaken fun m hm => by rwa [Nat.add_comm] at hm

theorem bindAt {mark : Mark} {second : Bool → Rule Result}
    (h : ∀ found, SoundRule known good (second found)) :
    SoundRule known good (Rule.at? mark >>= second) := fun r hEnded hKnown => h _ r hEnded hKnown

/-- A rule that goes another way at a mark. -/
theorem bindAtMark {mark : Mark} {second : Bool → Rule Result}
    (hFound : SoundAt (.mark mark) known good (second true))
    (hMissing : SoundRule known good (second false)) :
    SoundRule known good (Rule.at? mark >>= second) := by
  intro r hEnded hKnown
  change Consumes good r (second (decide (r.cursor.current.kind = .mark mark)) r)
  by_cases hKind : r.cursor.current.kind = .mark mark
  · rw [decide_eq_true hKind]
    exact hFound r hEnded hKnown hKind
  · rw [decide_eq_false hKind]
    exact hMissing r hEnded hKnown

/-- The end of a statement spells nothing. -/
theorem expectStatementEnd : SoundRule known (fun _ ks => ks = []) Rule.expectStatementEnd := by
  refine bindPeek fun k => ?_
  split
  · exact here (pure fun _ _ => by rfl)
  · exact here (pure fun _ _ => by rfl)
  · intro r hEnded hKnown _
    obtain ⟨hEnded', hLeft⟩ := hEnded.skipNewlines
    exact ⟨hEnded', fun hClean => ⟨hClean, [], hLeft, rfl⟩⟩
  · exact (problem _ _).here

theorem bindStatementEnd {second : Unit → Rule Result} (h : SoundRule known good (second ())) :
    SoundRule known good (Rule.expectStatementEnd >>= second) := by
  refine expectStatementEnd.bindRead ?_ fun _ => ⟨_, rfl⟩
  rintro ⟨⟩ _ rfl
  exact h.weaken fun m hm => by rwa [List.length_nil, Nat.zero_add] at hm

section

variable {Item : Type} {close : Mark} {write : Item → List Written} {fits : List Item → Prop}
  {item : List Item → Rule Item} {bound : Nat}

/-- Items are read one by one; what is known of those before an item is known of all in the end. -/
theorem separated
    (hItem : ∀ before, SoundRule (fun m => m < bound ∧ fits before)
      (fun next ks => Spells (write next) ks ∧ fits (before ++ [next])) (item before))
    (fuel : Nat) (before : List Item) :
    SoundRule (fun m => m < bound ∧ m ≤ fuel ∧ fits before)
      (fun items ks => fits items ∧ ∃ more, items = before ++ more ∧
        Spells (Written.joined write more) ks) (Rule.separated close item fuel before) := by
  induction fuel generalizing before with
  | zero => exact fail fun m hm => by omega
  | succ fuel ih =>
      refine bindAt fun closed => .ite (fun _ => pure fun m hm => ?_) fun _ => ?_
      · exact ⟨hm.2.2, [], (List.append_nil before).symm, .nil⟩
      · refine ((hItem before).weaken fun m hm => ⟨hm.1, hm.2.2⟩).bind fun next ks => bindSkip ?_
        refine bindEat (by simp) (by simp) (bindSkip ?_) (pure fun m hm => ?_)
        · refine ((ih (before ++ [next])).weaken fun m hm => ?_).imp ?_
          · exact ⟨by omega, by omega, hm.2.2⟩
          · rintro m ⟨-, hSpells, -⟩ items later ⟨hFits, more, rfl, hMore⟩
            refine ⟨hFits, next :: more, by simp, ?_⟩
            exact hSpells.append (hMore.after more)
        · obtain ⟨-, hSpells, hFits⟩ := hm
          exact ⟨hFits, [next], rfl, hSpells.append (.noComma .nil)⟩

/-- Items between commas, and the mark behind them. -/
theorem separatedUpTo (hMark : close ≠ .endOfInput) (hLine : close ≠ .newline) (hNone : fits [])
    (hItem : ∀ before, SoundRule (fun m => m < bound ∧ fits before)
      (fun next ks => Spells (write next) ks ∧ fits (before ++ [next])) (item before)) :
    SoundRule (· < bound)
      (fun items ks => fits items ∧
        Spells (Written.joined write items ++ [.token (.mark close)]) ks)
      (Rule.separatedUpTo close item) := by
  refine bindSkip (bindRounds fun n => ?_)
  refine ((separated hItem n []).weaken fun m hm => ⟨hm.1, hm.2, hNone⟩).bind fun items ks => ?_
  refine bindExpect hMark hLine (pure fun m hm => ?_)
  obtain ⟨-, hFits, more, rfl, hSpells⟩ := hm
  exact ⟨hFits, hSpells.append (.token .nil)⟩

end

/-- Reading goes on elsewhere only after a problem. -/
theorem bindResync {second : Unit → Rule Result} (hNever : ∀ m, ¬ known m)
    (h : SoundRule known good (second ())) : SoundRule known good (Rule.resync >>= second) := by
  intro r hEnded hKnown
  have hProblem : ¬ r.Clean := fun hClean => hNever _ (hKnown hClean)
  exact Consumes.of_problem (r := { r with cursor := r.cursor.resync }) hProblem
    (h _ (Reading.passStatement_ended _ _ _ _ _ _ hEnded) fun hClean => (hProblem hClean).elim)

/-- A rule that gave up has reported a problem. -/
theorem orElseNone (h : SoundRule known good rule) :
    SoundRule known (fun result? ks => ∃ result, result? = some result ∧ good result ks)
      (Rule.orElseNone rule) := by
  intro r hEnded hKnown
  have hOutcome := h r hEnded hKnown
  unfold Rule.orElseNone
  cases hRun : rule r with
  | ok result r' =>
      rw [hRun] at hOutcome
      refine ⟨hOutcome.1, fun hClean => ?_⟩
      obtain ⟨hBefore, ks, hLeft, hGood⟩ := hOutcome.2 hClean
      exact ⟨hBefore, ks, hLeft, result, rfl, hGood⟩
  | error failure r' =>
      rw [hRun] at hOutcome
      exact ⟨hOutcome.1, fun hClean => (hOutcome.2 hClean).elim⟩

end SoundRule

end Metagen.Script
