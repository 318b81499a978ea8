import Metagen.Proofs.Script.Extents
import Metagen.Proofs.Script.Rules

/-! Rules of the grammar only go forward among tokens in order, and what they yield reaches from the
token they start at to the token they read last. -/

namespace Metagen.Script

namespace Cursor

/-- The range of the token read last; before the first one, the first position. -/
def passed (c : Cursor) : Span := c.previous.getD (.point .origin)

/-- Where the token read last ends. -/
def reached (c : Cursor) : Position := c.passed.stop

/-- Where the token at the cursor starts. -/
def front (c : Cursor) : Position := c.current.span.start

/-- The token read last ends before the one at the cursor starts. -/
def Firm (c : Cursor) : Prop := c.reached < c.front

/-- A range that starts and ends no later than the token read last. -/
structure Since (c : Cursor) (first : Span) : Prop where
  start : first.start ≤ c.passed.start
  stop : first.stop ≤ c.reached

/-- From the cursor on, tokens stand in order, and the last one is the end mark. -/
structure InOrder (c : Cursor) : Prop where
  ended : ∀ t ∈ (c.current :: c.upcoming).getLast?, t.kind = .mark .endOfInput
  ordered : ∀ t ∈ c.current :: c.upcoming, t.span.Ordered
  precede : (c.current :: c.upcoming).Pairwise Token.Precedes
  passed : c.passed.Ordered
  start : c.passed.start ≤ c.front
  stop : c.reached ≤ c.current.span.stop

/-- The second cursor stands no earlier among the tokens than the first one. -/
structure LeadsTo (c d : Cursor) : Prop where
  inOrder : d.InOrder
  start : c.passed.start ≤ d.passed.start
  stop : c.reached ≤ d.reached
  front : c.front ≤ d.front

/-- The token at the first cursor is the one read last at the second one. -/
structure StepsTo (c d : Cursor) : Prop where
  leads : c.LeadsTo d
  passed : d.passed = c.current.span
  firm : c.current.kind.IsSolid → d.Firm

variable {c d e : Cursor}

theorem InOrder.refl (h : c.InOrder) : c.LeadsTo c := ⟨h, le_refl _, le_refl _, le_refl _⟩

theorem LeadsTo.trans (h : c.LeadsTo d) (h' : d.LeadsTo e) : c.LeadsTo e :=
  ⟨h'.inOrder, h.start.trans h'.start, h.stop.trans h'.stop, h.front.trans h'.front⟩

theorem Since.later {first : Span} (h : c.Since first) (h' : c.LeadsTo d) : d.Since first :=
  ⟨h.start.trans h'.start, h.stop.trans h'.stop⟩

theorem Since.merge {first : Span} (h : c.Since first) :
    first.merge c.passed = ⟨first.start, c.reached⟩ := Span.merge_eq h.start h.stop

theorem StepsTo.since (h : c.StepsTo d) : d.Since c.current.span := by
  refine ⟨?_, ?_⟩
  · rw [h.passed]
  · rw [reached, h.passed]

/-- The next token of tokens in order starts where the one before ends, or later. -/
theorem InOrder.step {previous : Option Span} {current t : Token} {ts : List Token}
    (h : InOrder ⟨previous, current, t :: ts⟩) :
    StepsTo ⟨previous, current, t :: ts⟩ ⟨some current.span, t, ts⟩ := by
  have hPrecedes := (List.pairwise_cons.1 h.precede).1 t List.mem_cons_self
  have hInOrder : InOrder ⟨some current.span, t, ts⟩ :=
    { ended := fun u hu => h.ended u (by rwa [List.getLast?_cons_cons])
      ordered := fun u hu => h.ordered u (List.mem_cons_of_mem _ hu)
      precede := (List.pairwise_cons.1 h.precede).2
      passed := h.ordered current List.mem_cons_self
      start := hPrecedes.start
      stop := hPrecedes.stop }
  exact ⟨⟨hInOrder, h.start, h.stop, hPrecedes.start⟩, rfl, hPrecedes.apart⟩

/-- A token that is read is not the end mark, so that there is another one. -/
theorem InOrder.advance (h : c.InOrder) (hKind : c.current.kind ≠ .mark .endOfInput) :
    c.StepsTo c.advance := by
  obtain ⟨previous, current, upcoming⟩ := c
  cases upcoming with
  | nil => exact (hKind (h.ended current rfl)).elim
  | cons t ts => exact h.step

theorem InOrder.leads_advance (h : c.InOrder) : c.LeadsTo c.advance := by
  obtain ⟨previous, current, upcoming⟩ := c
  cases upcoming with
  | nil => exact h.refl
  | cons t ts => exact h.step.leads

/-- Passing over line ends goes forward among tokens that stand in order. -/
theorem leads_passNewlines {previous : Option Span} {current : Token} {upcoming : List Token}
    (h : InOrder ⟨previous, current, upcoming⟩) :
    LeadsTo ⟨previous, current, upcoming⟩ (passNewlines previous current upcoming) := by
  induction upcoming generalizing previous current with
  | nil => exact h.refl
  | cons t ts ih =>
      have hStep := h.step.leads
      unfold passNewlines
      split
      next => exact hStep.trans (ih hStep.inOrder)
      next => exact h.refl

theorem InOrder.skipNewlines (h : c.InOrder) : c.LeadsTo c.skipNewlines := leads_passNewlines h

/-- Passing over a statement goes forward among tokens that stand in order. -/
theorem leads_passStatement {previous : Option Span} {current : Token} {upcoming : List Token}
    (h : InOrder ⟨previous, current, upcoming⟩) :
    LeadsTo ⟨previous, current, upcoming⟩ (passStatement previous current upcoming) := by
  induction upcoming generalizing previous current with
  | nil => exact h.refl
  | cons t ts ih =>
      have hStep := h.step.leads
      unfold passStatement
      split
      next => exact h.refl
      next =>
        split
        next => exact hStep.trans (leads_passNewlines hStep.inOrder)
        next =>
          split
          next => exact h.refl
          next => exact hStep.trans (ih hStep.inOrder)

theorem InOrder.resync (h : c.InOrder) : c.LeadsTo c.resync := leads_passStatement h

end Cursor

/-- Names and nodes that stand one after another from a position on, and before the cursor. -/
structure Laid (p : Position) (children : List Child) (c : Cursor) : Prop where
  le : p ≤ c.front
  nests : ∀ child ∈ children, child.Nests
  start : ∀ child ∈ children, p ≤ child.span.start
  reached : ∀ child ∈ children, child.span.stop ≤ c.reached
  stop : ∀ child ∈ children, child.span.stop < c.front
  apart : children.Pairwise fun child later => child.span.stop < later.span.start

/-- A name or a node reaches from a position to the token read last. -/
structure Stretch (p : Position) (child : Child) (c : Cursor) : Prop where
  nests : child.Nests
  span : child.span = ⟨p, c.reached⟩
  firm : c.Firm

variable {c d e : Cursor} {p q : Position} {child : Child} {children more : List Child}

theorem Stretch.le (h : Stretch p child c) : p ≤ c.reached := by
  have hOrdered := h.nests.ordered
  rwa [Span.Ordered, h.span] at hOrdered

namespace Laid

theorem nil (h : p ≤ c.front) : Laid p [] c := ⟨h, nofun, nofun, nofun, nofun, .nil⟩

theorem later (h : Laid p children c) (h' : c.LeadsTo d) : Laid p children d :=
  { h with
    le := h.le.trans h'.front
    reached := fun child hChild => (h.reached child hChild).trans h'.stop
    stop := fun child hChild => (h.stop child hChild).trans_le h'.front }

/-- What is read may be counted from an earlier position on. -/
theorem since (h : Laid q children c) (hLe : p ≤ q) : Laid p children c :=
  { h with
    le := hLe.trans h.le
    start := fun child hChild => hLe.trans (h.start child hChild) }

/-- What is read from a cursor on comes behind what was read before it. -/
theorem append (h : Laid p children c) (h' : Laid c.front more d) (hLater : c.LeadsTo d) :
    Laid p (children ++ more) d where
  le := h.le.trans h'.le
  nests := List.forall_mem_append.2 ⟨h.nests, h'.nests⟩
  start := List.forall_mem_append.2 ⟨h.start, (h'.since h.le).start⟩
  reached := List.forall_mem_append.2 ⟨(h.later hLater).reached, h'.reached⟩
  stop := List.forall_mem_append.2 ⟨(h.later hLater).stop, h'.stop⟩
  apart := List.pairwise_append.2 ⟨h.apart, h'.apart, fun first hFirst second hSecond =>
    (h.stop first hFirst).trans_le (h'.start second hSecond)⟩

end Laid

/-- A single child that was read makes up a list of children. -/
theorem Stretch.laid (h : Stretch p child c) : Laid p [child] c where
  le := h.le.trans h.firm.le
  nests := by simpa using h.nests
  start := by simp [h.span]
  reached := by simp [h.span]
  stop := by
    simp only [List.mem_singleton, forall_eq, h.span]
    exact h.firm
  apart := List.pairwise_singleton _ _

/-- A node reaches from a position to the token read last, around what is read between them. -/
theorem Stretch.whole {node : Node} (hLaid : Laid p node.children c)
    (hSpan : node.span = ⟨p, c.reached⟩) (hLe : p ≤ c.reached) (hFirm : c.Firm) :
    Stretch p (.node node) c := by
  have hFrames : node.Frames :=
    { ordered := by
        rw [hSpan]
        exact hLe
      each := fun child hChild => (hLaid.nests child hChild).ordered
      covers := fun child hChild => by
        rw [hSpan]
        exact ⟨hLaid.start child hChild, hLaid.reached child hChild⟩
      apart := hLaid.apart }
  exact ⟨.of_children hFrames fun inner hInner => hLaid.nests _ hInner, hSpan, hFirm⟩

/-- A node that starts where something read before does, and reaches to the token read last. -/
theorem Stretch.around {node : Node} {first : Span} (hInOrder : c.InOrder) (hSince : c.Since first)
    (hStart : first.start = p) (hLaid : Laid p node.children c)
    (hSpan : node.span = first.merge c.passed) (hFirm : c.Firm) : Stretch p (.node node) c := by
  subst hStart
  exact .whole hLaid (hSpan.trans hSince.merge) (hSince.start.trans hInOrder.passed) hFirm

/-- A node that starts with a token, which has been read, and reaches to the token read last. -/
theorem Stretch.enclosed {node : Node} (hStep : c.StepsTo d) (hLater : d.LeadsTo e)
    (hLaid : Laid d.front node.children e) (hFirm : e.Firm)
    (hSpan : node.span = c.current.span.merge e.passed) : Stretch c.front (.node node) e :=
  .around hLater.inOrder (hStep.since.later hLater) rfl (hLaid.since hStep.leads.front) hSpan hFirm

/-- A node with two things inside reaches from the first to the second. -/
theorem Stretch.pair {node : Node} {first second : Child} (hFirst : Stretch p first c)
    (hLater : c.LeadsTo d) (hSecond : Stretch d.front second e) (hNext : d.LeadsTo e)
    (hChildren : node.children = [first, second])
    (hSpan : node.span = first.span.merge second.span) : Stretch p (.node node) e := by
  have hLe : p ≤ d.front := (hFirst.laid.later hLater).le
  have hMerge : first.span.merge second.span = ⟨p, e.reached⟩ := by
    rw [hFirst.span, hSecond.span]
    exact Span.merge_eq hLe (hLater.trans hNext).stop
  refine .whole ?_ (hSpan.trans hMerge) (hLe.trans hSecond.le) hSecond.firm
  rw [hChildren]
  exact (hFirst.laid.later hLater).append hSecond.laid hNext

/-- A node with one thing inside, and nothing else of its own. -/
theorem Stretch.only {node : Node} (h : Stretch p child c) (hChildren : node.children = [child])
    (hSpan : node.span = child.span) : Stretch p (.node node) c :=
  .whole (hChildren ▸ h.laid) (hSpan.trans h.span) h.le h.firm

/-- Behind the token that follows it, a stretch started and ended before. -/
theorem Stretch.since (h : Stretch p child c) (hStep : c.StepsTo d) : d.Since child.span := by
  rw [h.span]
  refine ⟨?_, hStep.leads.stop⟩
  rw [hStep.passed]
  exact h.laid.le

/-- A token that is read is a stretch, as a name or as a node that nothing is inside. -/
theorem Stretch.token (h : c.StepsTo d) (hSolid : c.current.kind.IsSolid)
    (hSpan : child.span = c.current.span) (hNests : child.span.Ordered → child.Nests) :
    Stretch c.front child d := by
  refine ⟨hNests ?_, ?_, h.firm hSolid⟩
  · rw [hSpan, ← h.passed]
    exact h.leads.inOrder.passed
  · rw [hSpan, Cursor.reached, h.passed, Cursor.front]

/-- Nothing is inside a leaf. -/
theorem nests_leaf {node : Node} (hChildren : node.children = []) (h : node.span.Ordered) :
    node.Nests := by
  refine .of_children ⟨h, ?_, ?_, ?_⟩ ?_
  all_goals simp [hChildren]

/-- What comes of a rule: a cursor further on, and a good result if the rule does not give up. -/
def Arrival {Result : Type} (c : Cursor) (good : Result → Cursor → Prop) :
    EStateM.Result Unit Reading Result → Prop
  | .ok result r => c.LeadsTo r.cursor ∧ good result r.cursor
  | .error _ r => c.LeadsTo r.cursor

/-- From a cursor among tokens in order the rule goes forward, and its result is good. -/
def Leads {Result : Type} (c : Cursor) (good : Result → Cursor → Prop) (rule : Rule Result) :
    Prop :=
  c.InOrder → ∀ r : Reading, r.cursor = c → Arrival c good (rule r)

namespace Leads

variable {Result Next : Type} {good : Result → Cursor → Prop} {fine : Next → Cursor → Prop}
  {rule : Rule Result}

theorem pure {result : Result} (h : good result c) : Leads c good (pure result) := by
  rintro hInOrder r rfl
  exact ⟨hInOrder.refl, h⟩

theorem fail : Leads c good Rule.fail := by
  rintro hInOrder r rfl
  exact hInOrder.refl

/-- What a rule leads to may be replaced by what follows from it. -/
theorem imp {better : Result → Cursor → Prop} (h : Leads c good rule)
    (hImp : ∀ result d, good result d → better result d) : Leads c better rule := by
  intro hInOrder r hCursor
  have hArrival := h hInOrder r hCursor
  cases hRun : rule r with
  | ok result r' =>
      rw [hRun] at hArrival
      exact ⟨hArrival.1, hImp result _ hArrival.2⟩
  | error failure r' =>
      rw [hRun] at hArrival
      exact hArrival

/-- A rule that goes forward may be followed by others that do so from wherever it has come to. -/
theorem bind {first : Rule Result} {second : Result → Rule Next} (hFirst : Leads c good first)
    (hSecond : ∀ result d, c.LeadsTo d → good result d → Leads d fine (second result)) :
    Leads c fine (first >>= second) := by
  intro hInOrder r hCursor
  have hArrival := hFirst hInOrder r hCursor
  change Arrival c fine (EStateM.bind first second r)
  unfold EStateM.bind
  cases hRun : first r with
  | error failure r' =>
      rw [hRun] at hArrival
      exact hArrival
  | ok result r' =>
      rw [hRun] at hArrival
      obtain ⟨hLater, hGood⟩ := hArrival
      have hNext := hSecond result _ hLater hGood hLater.inOrder r' rfl
      dsimp only
      cases hEnd : second result r' with
      | error failure s =>
          rw [hEnd] at hNext
          exact hLater.trans hNext
      | ok next s =>
          rw [hEnd] at hNext
          exact ⟨hLater.trans hNext.1, hNext.2⟩

theorem map {first : Rule Result} (f : Result → Next) (hFirst : Leads c good first)
    (h : ∀ result d, c.LeadsTo d → good result d → fine (f result) d) :
    Leads c fine (f <$> first) := by
  rw [map_eq_pure_bind]
  exact hFirst.bind fun result d hLater hGood => .pure (h result d hLater hGood)

theorem ite {p : Prop} [Decidable p] {other : Rule Result} (h : Leads c good rule)
    (hOther : Leads c good other) : Leads c good (if p then rule else other) := by
  split
  · exact h
  · exact hOther

/-- A rule that only looks at the reading. -/
theorem bindLook {look : Rule Result} {second : Result → Rule Next} (seen : Result → Prop)
    (hLook : ∀ r : Reading, r.cursor = c → ∃ result, look r = .ok result r ∧ seen result)
    (h : ∀ result, seen result → Leads c fine (second result)) :
    Leads c fine (look >>= second) := by
  intro hInOrder r hCursor
  obtain ⟨result, hRun, hSeen⟩ := hLook r hCursor
  change Arrival c fine (EStateM.bind look second r)
  rw [EStateM.bind, hRun]
  exact h result hSeen hInOrder r hCursor

/-- A rule that only looks at the reading, whatever it sees. -/
theorem bindAny {look : Rule Result} {second : Result → Rule Next}
    (hLook : ∀ r : Reading, ∃ result, look r = .ok result r)
    (h : ∀ result, Leads c fine (second result)) : Leads c fine (look >>= second) := by
  refine bindLook (fun _ => True) (fun r _ => ?_) fun result _ => h result
  obtain ⟨result, hRun⟩ := hLook r
  exact ⟨result, hRun, trivial⟩

theorem bindPeek {second : TokenKind → Rule Result}
    (h : Leads c good (second c.current.kind)) : Leads c good (Rule.peek >>= second) :=
  bindLook (· = c.current.kind) (fun _ hCursor => ⟨_, rfl, by rw [hCursor]⟩)
    fun _ hSeen => hSeen ▸ h

theorem bindPeekNext {second : TokenKind → Rule Result} (h : ∀ kind, Leads c good (second kind)) :
    Leads c good (Rule.peekNext >>= second) := by
  refine bindAny (fun r => ?_) h
  obtain ⟨file, ⟨previous, current, upcoming⟩, report, depth⟩ := r
  cases upcoming with
  | nil => exact ⟨_, rfl⟩
  | cons t ts => exact ⟨_, rfl⟩

theorem bindCurrentSpan {second : Span → Rule Result}
    (h : Leads c good (second c.current.span)) : Leads c good (Rule.currentSpan >>= second) :=
  bindLook (· = c.current.span) (fun _ hCursor => ⟨_, rfl, by rw [hCursor]⟩)
    fun _ hSeen => hSeen ▸ h

theorem bindPreviousSpan {second : Span → Rule Result} (h : Leads c good (second c.passed)) :
    Leads c good (Rule.previousSpan >>= second) :=
  bindLook (· = c.passed) (fun _ hCursor => ⟨_, rfl, by rw [← hCursor]; rfl⟩)
    fun _ hSeen => hSeen ▸ h

theorem bindRounds {second : Nat → Rule Result} (h : ∀ n, Leads c good (second n)) :
    Leads c good (Rule.rounds >>= second) := bindAny (fun _ => ⟨_, rfl⟩) h

/-- What is at the cursor is known on the way on which it was found. -/
theorem bindAt {mark : Mark} {second : Bool → Rule Result}
    (hFound : c.current.kind = .mark mark → Leads c good (second true))
    (hMissing : Leads c good (second false)) : Leads c good (Rule.at? mark >>= second) := by
  refine bindLook (· = decide (c.current.kind = .mark mark))
    (fun _ hCursor => ⟨_, rfl, by rw [hCursor]⟩) ?_
  rintro _ rfl
  by_cases hKind : c.current.kind = .mark mark
  · rw [decide_eq_true hKind]
    exact hFound hKind
  · rw [decide_eq_false hKind]
    exact hMissing

/-- Whether a mark stands at the cursor may not matter. -/
theorem lookAt {mark : Mark} {second : Bool → Rule Result} (h : ∀ b, Leads c good (second b)) :
    Leads c good (Rule.at? mark >>= second) := bindAt (fun _ => h true) (h false)

theorem problemAt (code : ErrorCode) (message : String) (span : Span) :
    Leads c (fun _ d => d = c) (Rule.problemAt code message span) := by
  rintro hInOrder r rfl
  exact ⟨hInOrder.refl, rfl⟩

theorem problem (code : ErrorCode) (message : String) :
    Leads c (fun _ d => d = c) (Rule.problem code message) :=
  bindCurrentSpan (problemAt _ _ _)

theorem unexpected (message : String) : Leads c good (Rule.unexpected message) :=
  (problem _ _).bind fun _ _ _ _ => fail

/-- A problem that is reported only if there is one. -/
theorem problemIf {p : Prop} [Decidable p] {code : ErrorCode} {message : String} {span : Span}
    (h : Leads c good rule) : Leads c good (do
      if p then Rule.problemAt code message span
      rule) := by
  split
  · refine (problemAt _ _ _).bind ?_
    rintro _ _ _ rfl
    exact h
  · exact h

theorem skipNewlines : Leads c (fun _ _ => True) Rule.skipNewlines := by
  rintro hInOrder r rfl
  exact ⟨hInOrder.skipNewlines, trivial⟩

theorem resync : Leads c (fun _ _ => True) Rule.resync := by
  rintro hInOrder r rfl
  exact ⟨hInOrder.resync, trivial⟩

theorem advance (hKind : c.current.kind ≠ .mark .endOfInput) :
    Leads c (fun t d => t = c.current ∧ c.StepsTo d) Rule.advance := by
  rintro hInOrder r rfl
  have hStep := hInOrder.advance hKind
  exact ⟨hStep.leads, rfl, hStep⟩

/-- The token at the cursor is read, and is not the end mark. -/
theorem bindAdvance {second : Token → Rule Result} (hKind : c.current.kind ≠ .mark .endOfInput)
    (h : ∀ d, c.StepsTo d → Leads d good (second c.current)) :
    Leads c good (Rule.advance >>= second) := by
  refine (advance hKind).bind ?_
  rintro _ d - ⟨rfl, hStep⟩
  exact h d hStep

theorem bindDiscard {second : Unit → Rule Result} (hKind : c.current.kind ≠ .mark .endOfInput)
    (h : ∀ d, c.StepsTo d → Leads d good (second ())) :
    Leads c good (discard Rule.advance >>= second) := by
  have hDiscard : Leads c (fun _ d => c.StepsTo d) (discard Rule.advance) :=
    (advance hKind).map _ fun _ _ _ hGood => hGood.2
  exact hDiscard.bind fun _ d _ hStep => h d hStep

theorem discardAdvance : Leads c (fun _ _ => True) (discard Rule.advance) := by
  rintro hInOrder r rfl
  exact ⟨hInOrder.leads_advance, trivial⟩

/-- Reading a mark that is there goes one step forward, and goes nowhere if the mark is missing. -/
theorem bindEat {mark : Mark} (hMark : mark ≠ .endOfInput) {second : Bool → Rule Result}
    (hFound : ∀ d, c.current.kind = .mark mark → c.StepsTo d → Leads d good (second true))
    (hMissing : Leads c good (second false)) : Leads c good (Rule.eat mark >>= second) := by
  have hEat : Leads c (fun found d => if found = true then c.current.kind = .mark mark ∧ c.StepsTo d
      else d = c) (Rule.eat mark) := by
    rintro hInOrder r rfl
    rw [ReadsOn.eat_eq]
    split
    next hKind =>
      have hStep := hInOrder.advance fun hEnd => hMark (TokenKind.mark.inj (hKind.symm.trans hEnd))
      exact ⟨hStep.leads, hKind, hStep⟩
    next => exact ⟨hInOrder.refl, rfl⟩
  refine hEat.bind fun found d _ hGood => ?_
  cases found with
  | true => exact hFound d hGood.1 hGood.2
  | false =>
      obtain rfl : d = c := hGood
      exact hMissing

/-- A mark that has to come is read, or what stands there instead is reported. -/
theorem expect {mark : Mark} (hMark : (TokenKind.mark mark).IsSolid) :
    Leads c (fun _ d => c.StepsTo d ∧ d.Firm) (Rule.expect mark) := by
  refine bindEat ?_ (fun d hKind hStep => .pure ⟨hStep, hStep.firm (hKind ▸ hMark)⟩) ?_
  · rintro rfl
    exact hMark
  · exact bindPeek (unexpected _)

/-- The token at the cursor is read as a name. -/
theorem readName {spelled : String} (hSolid : c.current.kind.IsSolid) :
    Leads c (fun name d => Stretch c.front (.name name) d)
      (do return ⟨spelled, (← Rule.advance).span⟩) :=
  bindAdvance hSolid.ne_endOfInput fun _ hStep => .pure (.token hStep hSolid rfl id)

/-- A name is read from where its token starts to where it ends. -/
theorem expectName : Leads c (fun name d => Stretch c.front (.name name) d) Rule.expectName := by
  refine bindPeek ?_
  split
  next name hName => exact readName (hName ▸ trivial)
  next =>
    split
    · exact unexpected _
    · exact unexpected _

/-- The name of a field is read from where its token starts to where it ends. -/
theorem expectFieldName :
    Leads c (fun name d => Stretch c.front (.name name) d) Rule.expectFieldName := by
  refine bindPeek ?_
  split
  next name hName => exact readName (hName ▸ trivial)
  next name hName => exact readName (hName ▸ trivial)
  next =>
    split
    next word hWord =>
      refine readName ?_
      unfold TokenKind.keyword? at hWord
      split at hWord
      next hKind => exact hKind ▸ trivial
      next => cases hWord
    next => exact unexpected _

/-- The end of a statement is a line end, which is passed, or a mark that somebody else reads. -/
theorem expectStatementEnd : Leads c (fun _ _ => True) Rule.expectStatementEnd := by
  refine bindPeek ?_
  split
  · exact pure trivial
  · exact pure trivial
  · exact skipNewlines
  · exact (problem _ _).imp fun _ _ _ => trivial

/-- A rule that gives up has gone forward, too. -/
theorem orElseNone (h : Leads c good rule) :
    Leads c (fun result? d => ∀ result ∈ result?, good result d) (Rule.orElseNone rule) := by
  intro hInOrder r hCursor
  have hArrival := h hInOrder r hCursor
  unfold Rule.orElseNone
  cases hRun : rule r with
  | ok result r' =>
      rw [hRun] at hArrival
      refine ⟨hArrival.1, ?_⟩
      rintro _ ⟨⟩
      exact hArrival.2
  | error failure r' =>
      rw [hRun] at hArrival
      exact ⟨hArrival, nofun⟩

section

variable {close : Mark} {item : List Result → Rule Result} {part : Result → List Child}

/-- Items that are read one after another are laid one after another. -/
theorem separated (hItem : ∀ before c, Leads c (fun i d => Laid c.front (part i) d) (item before))
    (fuel : Nat) {found : List Result} (hFound : Laid p (found.flatMap part) c) :
    Leads c (fun results d => Laid p (results.flatMap part) d)
      (Rule.separated close item fuel found) := by
  induction fuel generalizing found c with
  | zero => exact fail
  | succ fuel ih =>
      refine bindAt (fun _ => pure hFound) ((hItem found c).bind fun next d hNext hLaid => ?_)
      have hMore : Laid p ((found ++ [next]).flatMap part) d := by
        rw [List.flatMap_append, List.flatMap_singleton]
        exact hFound.append hLaid hNext
      refine skipNewlines.bind fun _ e hLines _ => ?_
      refine bindEat (by simp) (fun e' _ hComma => ?_) (pure (hMore.later hLines))
      refine skipNewlines.bind fun _ f hLines' _ => ih ?_
      exact hMore.later (hLines.trans (hComma.leads.trans hLines'))

/-- By induction on the bound of rounds: items between commas stand one behind the other, up to the
closing mark. -/
theorem separatedUpTo (hClose : (TokenKind.mark close).IsSolid)
    (hItem : ∀ before c, Leads c (fun i d => Laid c.front (part i) d) (item before)) :
    Leads c (fun results d => Laid c.front (results.flatMap part) d ∧ d.Firm)
      (Rule.separatedUpTo close item) := by
  refine skipNewlines.bind fun _ d hLines _ => bindRounds fun n => ?_
  refine (separated hItem n (.nil hLines.front)).bind fun results e _ hLaid => ?_
  refine (expect hClose).bind fun _ f hMark hGood => pure ⟨hLaid.later hMark, hGood.2⟩

end

end Leads

end Metagen.Script
