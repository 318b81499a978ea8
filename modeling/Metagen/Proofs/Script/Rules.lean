import Metagen.Script.Cursor
import Metagen.Proofs.Script.Lexer
import Metagen.Proofs.Script.Parts

/-! What rules of the grammar read. A rule that starts among tokens of a text reports problems in
the text only, and what it yields starts where its tokens start. -/

namespace Metagen.Script

/-- The nodes of a tree all start on lines of the text from a place on. -/
def Node.Stands (a : Place) (node : Node) : Prop :=
  ∀ part : Node, part.Inside node → a.HasLine part.span.start

/-- A node stands in the source if its range does and all its parts do. -/
theorem Node.Stands.of_parts {a : Place} {node : Node} (hSpan : a.HasLine node.span.start)
    (hParts : ∀ part ∈ node.parts, part.Stands a) : node.Stands a := by
  intro part hInside
  rcases Relation.ReflTransGen.cases_head hInside with rfl | ⟨next, hNext, hRest⟩
  · exact hSpan
  · exact hParts next hNext part hRest

theorem Node.Stands.start {a : Place} {node : Node} (h : node.Stands a) :
    a.HasLine node.span.start := h node (.refl node)

/-- A range that covers two others starts where one of them does. -/
theorem Place.HasLine.merge {a : Place} {first second : Span} (hFirst : a.HasLine first.start)
    (hSecond : a.HasLine second.start) : a.HasLine (first.merge second).start := by
  unfold Span.merge Position.earlier
  dsimp only
  split
  · exact hSecond
  · exact hFirst

/-- Tokens of the text, and the end mark behind them. -/
def TokensStand (a : Place) (tokens : List Token) : Prop :=
  ∃ more position, tokens = more ++ [⟨.mark .endOfInput, .point position⟩] ∧
    a.HasPosition position ∧ ∀ t ∈ more, t.Stands a

/-- A token that is read next: one of the text, or the end mark. -/
structure Token.Ahead (a : Place) (t : Token) : Prop where
  has : a.HasPosition t.span.start
  stands : t.kind ≠ .mark .endOfInput → t.Stands a

namespace TokensStand

variable {a : Place} {t u : Token} {rest : List Token}

/-- The first of tokens that stand in the text is one of them, or the end mark. -/
theorem ahead (h : TokensStand a (t :: rest)) : t.Ahead a := by
  obtain ⟨more, position, hEq, hPosition, hMore⟩ := h
  cases more with
  | nil =>
      obtain ⟨rfl, -⟩ := List.cons.inj hEq
      exact ⟨hPosition, fun hKind => (hKind rfl).elim⟩
  | cons first more =>
      obtain ⟨rfl, -⟩ := List.cons.inj hEq
      have hFirst := hMore t List.mem_cons_self
      exact ⟨hFirst.hasLine.1, fun _ => hFirst⟩

/-- Every token starts in the text, the end mark included. -/
theorem hasPosition (h : TokensStand a rest) (ht : t ∈ rest) : a.HasPosition t.span.start := by
  obtain ⟨more, position, rfl, hPosition, hMore⟩ := h
  rcases List.mem_append.1 ht with hToken | hEnd
  · exact (hMore t hToken).hasLine.1
  · rw [List.mem_singleton.1 hEnd]
    exact hPosition

/-- Only the last token is the end mark. -/
theorem tail (h : TokensStand a (t :: u :: rest)) :
    t.Stands a ∧ TokensStand a (u :: rest) := by
  obtain ⟨more, position, hEq, hPosition, hMore⟩ := h
  cases more with
  | nil => cases hEq
  | cons first more =>
      obtain ⟨rfl, hRest⟩ := List.cons.inj hEq
      exact ⟨hMore t List.mem_cons_self, more, position, hRest, hPosition,
        fun v hv => hMore v (List.mem_cons_of_mem _ hv)⟩

/-- The last token is the end mark. -/
theorem kind_of_last (h : TokensStand a [t]) : t.kind = .mark .endOfInput := by
  obtain ⟨more, position, hEq, -⟩ := h
  cases more with
  | nil =>
      obtain ⟨rfl, -⟩ := List.cons.inj hEq
      rfl
  | cons first more =>
      obtain ⟨-, hRest⟩ := List.cons.inj hEq
      cases more <;> cases hRest

end TokensStand

/-- From the cursor on there are tokens of the text. Once something has begun, the token read last
is one of the text, too. -/
structure Cursor.Stands (a : Place) (begun : Bool) (c : Cursor) : Prop where
  tokens : TokensStand a (c.current :: c.upcoming)
  previous : begun = true → ∃ span ∈ c.previous, a.HasLine span.start

namespace Cursor

variable {a : Place} {begun : Bool}

theorem Stands.weaken {c : Cursor} (h : c.Stands a begun) : c.Stands a false :=
  ⟨h.tokens, nofun⟩

theorem Stands.step {previous : Option Span} {current t : Token} {ts : List Token}
    (h : Stands a begun ⟨previous, current, t :: ts⟩) :
    Stands a true ⟨some current.span, t, ts⟩ :=
  ⟨h.tokens.tail.2, fun _ => ⟨_, rfl, h.tokens.tail.1.hasLine⟩⟩

/-- A token that is read is not the end mark, so that there is another one. -/
theorem Stands.advance {c : Cursor} (h : c.Stands a begun)
    (hKind : c.current.kind ≠ .mark .endOfInput) : c.advance.Stands a true := by
  obtain ⟨previous, current, upcoming⟩ := c
  cases upcoming with
  | nil => exact (hKind h.tokens.kind_of_last).elim
  | cons t ts => exact h.step

theorem Stands.of_begun {c : Cursor} (h : c.Stands a true) : c.Stands a begun :=
  ⟨h.tokens, fun _ => h.previous rfl⟩

/-- At the end nothing is read. -/
theorem Stands.advance_keeps {c : Cursor} (h : c.Stands a begun) : c.advance.Stands a begun := by
  obtain ⟨previous, current, upcoming⟩ := c
  cases upcoming with
  | nil => exact h
  | cons t ts => exact h.step.of_begun

/-- Passing over line ends stays among the tokens of the source. -/
theorem stands_passNewlines {previous : Option Span} {current : Token} {upcoming : List Token}
    (h : Stands a begun ⟨previous, current, upcoming⟩) :
    (passNewlines previous current upcoming).Stands a begun := by
  induction upcoming generalizing previous current with
  | nil => exact h
  | cons t ts ih =>
      unfold passNewlines
      split
      next => exact ih h.step.of_begun
      next => exact h

theorem Stands.skipNewlines {c : Cursor} (h : c.Stands a begun) :
    c.skipNewlines.Stands a begun := stands_passNewlines h

/-- Passing over a statement stays among the tokens of the source. -/
theorem stands_passStatement {previous : Option Span} {current : Token} {upcoming : List Token}
    (h : Stands a begun ⟨previous, current, upcoming⟩) :
    (passStatement previous current upcoming).Stands a begun := by
  induction upcoming generalizing previous current with
  | nil => exact h
  | cons t ts ih =>
      unfold passStatement
      split
      next => exact h
      next =>
        split
        next => exact stands_passNewlines h.step.of_begun
        next =>
          split
          next => exact h
          next => exact ih h.step.of_begun

theorem Stands.resync {c : Cursor} (h : c.Stands a begun) : c.resync.Stands a begun :=
  stands_passStatement h

end Cursor

/-- The cursor is among tokens of the text, and all problems are in the text. -/
structure Reading.Stands (a : Place) (begun : Bool) (r : Reading) : Prop where
  cursor : r.cursor.Stands a begun
  report : ReportStands a r.report

theorem Reading.Stands.weaken {a : Place} {begun : Bool} {r : Reading} (h : r.Stands a begun) :
    r.Stands a false := ⟨h.cursor.weaken, h.report⟩

/-- What comes of a rule: a reading among the same tokens, and a good result if it does not give
up. -/
def Outcome {Result : Type} (a : Place) (begun : Bool) (good : Result → Prop) :
    EStateM.Result Unit Reading Result → Prop
  | .ok result r => r.Stands a begun ∧ good result
  | .error _ r => r.Stands a false

/-- The rule reads on among the tokens, and its result is good. -/
def ReadsOn {Result : Type} (a : Place) (before after : Bool) (good : Result → Prop)
    (rule : Rule Result) : Prop :=
  ∀ r, r.Stands a before → Outcome a after good (rule r)

/-- The rule reads on from this token. -/
def ReadsAt {Result : Type} (a : Place) (t : Token) (before after : Bool) (good : Result → Prop)
    (rule : Rule Result) : Prop :=
  ∀ r, r.Stands a before → r.cursor.current = t → Outcome a after good (rule r)

/-- Another rule goes on from what comes of a rule, unless that gives up. -/
theorem Outcome.bind {Result Next : Type} {a : Place} {middle after : Bool}
    {good : Result → Prop} {fine : Next → Prop} {first : Rule Result} {second : Result → Rule Next}
    {r : Reading} (hFirst : Outcome a middle good (first r))
    (hSecond : ∀ result, good result → ReadsOn a middle after fine (second result)) :
    Outcome a after fine ((first >>= second) r) := by
  change Outcome a after fine (EStateM.bind first second r)
  unfold EStateM.bind
  cases hRun : first r with
  | ok result r' =>
      rw [hRun] at hFirst
      exact hSecond result hFirst.2 r' hFirst.1
  | error failure r' =>
      rw [hRun] at hFirst
      exact hFirst

/-- Nothing is asked of a result. -/
def Whatever {Result : Type} (_ : Result) : Prop := True

namespace ReadsOn

variable {a : Place} {t : Token} {before middle after : Bool} {Result Next : Type}
  {good : Result → Prop} {fine : Next → Prop} {rule : Rule Result}

theorem pure {result : Result} (h : good result) : ReadsOn a before before good (pure result) :=
  fun _ hStands => ⟨hStands, h⟩

theorem fail : ReadsOn a before after good Rule.fail := fun _ hStands => hStands.weaken

/-- A rule that needs nothing to have begun reads on from where something has. -/
theorem weaken (h : ReadsOn a false after good rule) : ReadsOn a before after good rule :=
  fun r hStands => h r hStands.weaken

theorem here (h : ReadsOn a before after good rule) : ReadsAt a t before after good rule :=
  fun r hStands _ => h r hStands

/-- What a rule gives may be replaced by what follows from it. -/
theorem imp {better : Result → Prop} (h : ReadsOn a before after good rule)
    (hImp : ∀ result, good result → better result) : ReadsOn a before after better rule := by
  intro r hStands
  have hOutcome := h r hStands
  cases hRun : rule r with
  | ok result r' =>
      rw [hRun] at hOutcome
      exact ⟨hOutcome.1, hImp result hOutcome.2⟩
  | error failure r' =>
      rw [hRun] at hOutcome
      exact hOutcome

theorem bind {first : Rule Result} {second : Result → Rule Next}
    (hFirst : ReadsOn a before middle good first)
    (hSecond : ∀ result, good result → ReadsOn a middle after fine (second result)) :
    ReadsOn a before after fine (first >>= second) :=
  fun r hStands => (hFirst r hStands).bind hSecond

theorem map {first : Rule Result} (f : Result → Next) (hFirst : ReadsOn a before after good first)
    (h : ∀ result, good result → fine (f result)) : ReadsOn a before after fine (f <$> first) := by
  rw [map_eq_pure_bind]
  exact hFirst.bind fun result hResult => .pure (h result hResult)

theorem ite {p : Prop} [Decidable p] {other : Rule Result} (h : ReadsOn a before after good rule)
    (hOther : ReadsOn a before after good other) :
    ReadsOn a before after good (if p then rule else other) := by
  split
  · exact h
  · exact hOther

theorem bindPeek {second : TokenKind → Rule Result}
    (h : ∀ t : Token, t.Ahead a → ReadsAt a t before after good (second t.kind)) :
    ReadsOn a before after good (Rule.peek >>= second) :=
  fun r hStands => h r.cursor.current hStands.cursor.tokens.ahead r hStands rfl

theorem bindCurrentSpan {second : Span → Rule Result}
    (h : ∀ t : Token, t.Ahead a → ReadsAt a t before after good (second t.span)) :
    ReadsOn a before after good (Rule.currentSpan >>= second) :=
  fun r hStands => h r.cursor.current hStands.cursor.tokens.ahead r hStands rfl

/-- A rule that only looks at the reading. -/
theorem bindLook {second : Result → Rule Next} (hRule : ∀ r, ∃ result, rule r = .ok result r)
    (h : ∀ result, ReadsOn a before after fine (second result)) :
    ReadsOn a before after fine (rule >>= second) := by
  intro r hStands
  obtain ⟨result, hRun⟩ := hRule r
  change Outcome a after fine (EStateM.bind rule second r)
  rw [EStateM.bind, hRun]
  exact h result r hStands

/-- A bound on rounds may be anything. -/
theorem bindRounds {second : Nat → Rule Result} (h : ∀ n, ReadsOn a before after good (second n)) :
    ReadsOn a before after good (Rule.rounds >>= second) := bindLook (fun _ => ⟨_, rfl⟩) h

theorem bindAt {mark : Mark} {second : Bool → Rule Result}
    (h : ∀ found, ReadsOn a before after good (second found)) :
    ReadsOn a before after good (Rule.at? mark >>= second) := bindLook (fun _ => ⟨_, rfl⟩) h

/-- A rule that goes another way at a mark. -/
theorem bindAtMark {mark : Mark} {second : Bool → Rule Result}
    (hFound : ∀ t : Token, t.Ahead a → t.kind = .mark mark →
      ReadsAt a t before after good (second true))
    (hMissing : ReadsOn a before after good (second false)) :
    ReadsOn a before after good (Rule.at? mark >>= second) := by
  intro r hStands
  have hRun : (Rule.at? mark >>= second) r =
      second (decide (r.cursor.current.kind = .mark mark)) r := rfl
  rw [hRun]
  by_cases hKind : r.cursor.current.kind = .mark mark
  · rw [decide_eq_true hKind]
    exact hFound r.cursor.current hStands.cursor.tokens.ahead hKind r hStands rfl
  · rw [decide_eq_false hKind]
    exact hMissing r hStands

/-- Once something has begun, the token read last is one of the text. -/
theorem bindPreviousSpan {second : Span → Rule Result}
    (h : ∀ span : Span, a.HasLine span.start → ReadsOn a true after good (second span)) :
    ReadsOn a true after good (Rule.previousSpan >>= second) := by
  intro r hStands
  obtain ⟨span, hSpan, hLine⟩ := hStands.cursor.previous rfl
  have hRun : (Rule.previousSpan >>= second) r =
      second (r.cursor.previous.getD (.point .origin)) r := rfl
  rw [hRun, hSpan]
  exact h span hLine r hStands

theorem skipNewlines : ReadsOn a before before Whatever Rule.skipNewlines :=
  fun _ hStands => ⟨⟨hStands.cursor.skipNewlines, hStands.report⟩, trivial⟩

theorem resync : ReadsOn a before before Whatever Rule.resync :=
  fun _ hStands => ⟨⟨hStands.cursor.resync, hStands.report⟩, trivial⟩

theorem problemAt {code : ErrorCode} {message : String} {span : Span}
    (h : a.HasPosition span.start) :
    ReadsOn a before before Whatever (Rule.problemAt code message span) :=
  fun _ hStands => ⟨⟨hStands.cursor, hStands.report.push h⟩, trivial⟩

theorem problem (code : ErrorCode) (message : String) :
    ReadsOn a before before Whatever (Rule.problem code message) :=
  bindCurrentSpan fun _ hToken => (problemAt hToken.has).here

theorem unexpected (message : String) : ReadsOn a before after good (Rule.unexpected message) :=
  (problem .unexpectedToken message).bind fun _ _ => fail

/-- Reading a mark steps over it if it is there, and otherwise does nothing. -/
theorem eat_eq (mark : Mark) (r : Reading) :
    Rule.eat mark r = if r.cursor.current.kind = .mark mark then
      .ok true { r with cursor := r.cursor.advance } else .ok false r := by
  unfold Rule.eat
  change EStateM.bind (Rule.at? mark) _ r = _
  have hAt : Rule.at? mark r = .ok (decide (r.cursor.current.kind = .mark mark)) r := rfl
  rw [EStateM.bind, hAt]
  by_cases hKind : r.cursor.current.kind = .mark mark
  · rw [if_pos hKind, decide_eq_true hKind]
    rfl
  · rw [if_neg hKind, decide_eq_false hKind]
    rfl

/-- Behind a mark that was read the statement has begun; without it nothing has changed. -/
theorem eat {mark : Mark} (hMark : mark ≠ .endOfInput) {second : Bool → Rule Result}
    (hFound : ReadsOn a true after good (second true))
    (hMissing : ReadsOn a before after good (second false)) :
    ReadsOn a before after good (Rule.eat mark >>= second) := by
  intro r hStands
  by_cases hKind : r.cursor.current.kind = .mark mark
  · have hRun : (Rule.eat mark >>= second) r =
        second true { r with cursor := r.cursor.advance } := by
      change EStateM.bind (Rule.eat mark) second r = _
      rw [EStateM.bind, eat_eq, if_pos hKind]
    rw [hRun]
    refine hFound _ ⟨hStands.cursor.advance ?_, hStands.report⟩
    rw [hKind]
    exact fun hEq => hMark (TokenKind.mark.inj hEq)
  · have hRun : (Rule.eat mark >>= second) r = second false r := by
      change EStateM.bind (Rule.eat mark) second r = _
      rw [EStateM.bind, eat_eq, if_neg hKind]
    rw [hRun]
    exact hMissing r hStands

/-- A mark that has to come is read, or what stands there instead is reported. -/
theorem expect {mark : Mark} (hMark : mark ≠ .endOfInput) :
    ReadsOn a before true Whatever (Rule.expect mark) := by
  unfold Rule.expect
  refine eat hMark (.pure trivial) ?_
  exact bindPeek fun t _ => (unexpected _).here

/-- A rule that gives up is passed over. -/
theorem orElseNone (h : ReadsOn a before after good rule) :
    ReadsOn a before false (fun result? => ∀ result ∈ result?, good result)
      (Rule.orElseNone rule) := by
  intro r hStands
  have hOutcome := h r hStands
  unfold Rule.orElseNone
  cases hRun : rule r with
  | ok result r' =>
      rw [hRun] at hOutcome
      refine ⟨hOutcome.1.weaken, ?_⟩
      rintro _ ⟨⟩
      exact hOutcome.2
  | error failure r' =>
      rw [hRun] at hOutcome
      exact ⟨hOutcome, by simp⟩

end ReadsOn

namespace ReadsAt

variable {a : Place} {t : Token} {before after : Bool} {Result Next : Type}
  {good : Result → Prop} {fine : Next → Prop} {rule : Rule Result}

theorem weaken (h : ReadsAt a t false after good rule) : ReadsAt a t before after good rule :=
  fun r hStands => h r hStands.weaken

theorem bindPeek {second : TokenKind → Rule Result}
    (h : ReadsAt a t before after good (second t.kind)) :
    ReadsAt a t before after good (Rule.peek >>= second) := by
  intro r hStands hToken
  have hRun : (Rule.peek >>= second) r = second r.cursor.current.kind r := rfl
  rw [hRun, hToken]
  exact h r hStands hToken

/-- Looking at the next token changes nothing. -/
theorem bindPeekNext {second : TokenKind → Rule Result}
    (h : ∀ kind, ReadsAt a t before after good (second kind)) :
    ReadsAt a t before after good (Rule.peekNext >>= second) := by
  intro r hStands hToken
  obtain ⟨file, ⟨previous, current, upcoming⟩, report, depth⟩ := r
  cases upcoming with
  | nil => exact h _ _ hStands hToken
  | cons next ts => exact h _ _ hStands hToken

theorem bindCurrentSpan {second : Span → Rule Result}
    (h : ReadsAt a t before after good (second t.span)) :
    ReadsAt a t before after good (Rule.currentSpan >>= second) := by
  intro r hStands hToken
  have hRun : (Rule.currentSpan >>= second) r = second r.cursor.current.span r := rfl
  rw [hRun, hToken]
  exact h r hStands hToken

/-- The token at the cursor is read, and is not the end mark. -/
theorem bindAdvance {second : Token → Rule Result} (hKind : t.kind ≠ .mark .endOfInput)
    (h : ReadsOn a true after good (second t)) :
    ReadsAt a t before after good (Rule.advance >>= second) := by
  intro r hStands hToken
  have hRun : (Rule.advance >>= second) r =
      second r.cursor.current { r with cursor := r.cursor.advance } := rfl
  rw [hRun, hToken]
  exact h _ ⟨hStands.cursor.advance (hToken ▸ hKind), hStands.report⟩

/-- A token that is no end mark may be read and dropped. -/
theorem bindDiscard {second : Unit → Rule Result} (hKind : t.kind ≠ .mark .endOfInput)
    (h : ReadsOn a true after good (second ())) :
    ReadsAt a t before after good (discard Rule.advance >>= second) := by
  intro r hStands hToken
  have hRun : (discard Rule.advance >>= second) r =
      second () { r with cursor := r.cursor.advance } := rfl
  rw [hRun]
  exact h _ ⟨hStands.cursor.advance (hToken ▸ hKind), hStands.report⟩

theorem bind {first : Rule Result} {second : Result → Rule Next} {middle : Bool}
    (hFirst : ReadsAt a t before middle good first)
    (hSecond : ∀ result, good result → ReadsOn a middle after fine (second result)) :
    ReadsAt a t before after fine (first >>= second) :=
  fun r hStands hToken => (hFirst r hStands hToken).bind hSecond

theorem map {first : Rule Result} (f : Result → Next) (hFirst : ReadsAt a t before after good first)
    (h : ∀ result, good result → fine (f result)) :
    ReadsAt a t before after fine (f <$> first) := by
  rw [map_eq_pure_bind]
  exact hFirst.bind fun result hResult => .pure (h result hResult)

/-- A mark that has to come is the token at the cursor. -/
theorem expect {mark : Mark} (hMark : mark ≠ .endOfInput) :
    ReadsAt a t before true (fun _ => t.kind = .mark mark) (Rule.expect mark) := by
  intro r hStands hToken
  by_cases hKind : t.kind = .mark mark
  · exact (ReadsOn.expect hMark).imp (fun _ _ => hKind) r hStands
  · have hRun : Rule.expect mark r = (do
        Rule.unexpected ("expected " ++ Rule.inQuotes mark.render ++ ", got " ++
          Rule.inQuotes (← Rule.peek).render)) r := by
      unfold Rule.expect
      change EStateM.bind (Rule.eat mark) _ r = _
      rw [EStateM.bind, ReadsOn.eat_eq, if_neg (hToken ▸ hKind)]
      rfl
    rw [hRun]
    exact ReadsOn.bindPeek (fun u _ => (ReadsOn.unexpected _).here) r hStands

end ReadsAt

namespace ReadsOn

variable {a : Place} {before : Bool}

/-- A name is a token of the text. -/
theorem expectName : ReadsOn a before true (fun name => a.HasLine name.span.start)
    Rule.expectName := by
  refine bindPeek fun t hToken => ?_
  split
  next name hName =>
    have hKind : t.kind ≠ .mark .endOfInput := by simp [hName]
    exact .bindAdvance hKind (.pure (hToken.stands hKind).hasLine)
  next =>
    split
    · exact (unexpected _).here
    · exact (unexpected _).here

/-- The name of a field stands in a line of the source. -/
theorem expectFieldName : ReadsOn a before true (fun name => a.HasLine name.span.start)
    Rule.expectFieldName := by
  refine bindPeek fun t hToken => ?_
  split
  next name hName =>
    have hKind : t.kind ≠ .mark .endOfInput := by simp [hName]
    exact .bindAdvance hKind (.pure (hToken.stands hKind).hasLine)
  next name hName =>
    have hKind : t.kind ≠ .mark .endOfInput := by simp [hName]
    exact .bindAdvance hKind (.pure (hToken.stands hKind).hasLine)
  next =>
    split
    next word hWord =>
      have hKind : t.kind ≠ .mark .endOfInput := by
        intro hEnd
        rw [hEnd] at hWord
        cases hWord
      exact .bindAdvance hKind (.pure (hToken.stands hKind).hasLine)
    · exact (unexpected _).here

theorem expectStatementEnd : ReadsOn a before before Whatever Rule.expectStatementEnd := by
  refine bindPeek fun t _ => ?_
  split
  · exact (pure trivial).here
  · exact (pure trivial).here
  · exact skipNewlines.here
  · exact (problem _ _).here

theorem discardAdvance : ReadsOn a before before Whatever (discard Rule.advance) :=
  fun _ hStands => ⟨⟨hStands.cursor.advance_keeps, hStands.report⟩, trivial⟩

section

variable {Result : Type} {good : Result → Prop} {close : Mark}
  {item : List Result → Rule Result}

/-- By induction on the bound of rounds: all items between commas are good if each of them is. -/
theorem separated (hItem : ∀ before, ReadsOn a true true good (item before)) (fuel : Nat)
    {found : List Result} (hFound : ∀ result ∈ found, good result) :
    ReadsOn a true true (fun results => ∀ result ∈ results, good result)
      (Rule.separated close item fuel found) := by
  induction fuel generalizing found with
  | zero => exact fail
  | succ fuel ih =>
      refine bindAt fun closed => ?_
      refine ite (pure hFound) ((hItem found).bind fun next hNext => ?_)
      have hMore : ∀ result ∈ found ++ [next], good result := by
        intro result hResult
        rcases List.mem_append.1 hResult with hOld | hNew
        · exact hFound result hOld
        · rwa [List.mem_singleton.1 hNew]
      refine skipNewlines.bind fun _ _ => eat (by simp) ?_ ?_
      · exact skipNewlines.bind fun _ _ => ih hMore
      · exact pure hMore

theorem separatedUpTo (hClose : close ≠ .endOfInput)
    (hItem : ∀ before, ReadsOn a true true good (item before)) :
    ReadsOn a true true (fun results => ∀ result ∈ results, good result)
      (Rule.separatedUpTo close item) := by
  refine skipNewlines.bind fun _ _ => bindRounds fun n => ?_
  refine (separated hItem n (by simp)).bind fun results hResults => ?_
  exact (expect hClose).bind fun _ _ => pure hResults

end

end ReadsOn

/-- The rule never gives up. -/
def Finishes {Result : Type} (rule : Rule Result) : Prop :=
  ∀ r, ∃ result r', rule r = .ok result r'

namespace Finishes

variable {Result Next : Type}

/-- Rules that finish may be put one behind the other. -/
theorem bind {first : Rule Result} {second : Result → Rule Next} (hFirst : Finishes first)
    (hSecond : ∀ result, Finishes (second result)) : Finishes (first >>= second) := by
  intro r
  obtain ⟨result, r', hRun⟩ := hFirst r
  obtain ⟨next, r'', hNext⟩ := hSecond result r'
  refine ⟨next, r'', ?_⟩
  change EStateM.bind first second r = _
  rw [EStateM.bind, hRun]
  exact hNext

/-- A rule that may fail finishes when its failure is taken for no result. -/
theorem orElseNone (rule : Rule Result) : Finishes (Rule.orElseNone rule) := by
  intro r
  unfold Rule.orElseNone
  cases rule r with
  | ok result r' => exact ⟨some result, r', rfl⟩
  | error failure r' => exact ⟨none, r', rfl⟩

end Finishes

end Metagen.Script
