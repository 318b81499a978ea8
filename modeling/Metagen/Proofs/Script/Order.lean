import Metagen.Proofs.Script.Scanning
import Metagen.Proofs.Script.Slices
import Metagen.Proofs.Source.Report

/-! Tokens in order. Where there are no faults, tokens stand in the order of their text, and each
ends before the next one starts, but for a line end, which ends where the next line starts, and for
a text before a hole, which ends with the mark of the hole. -/

namespace Metagen

namespace Position

variable {a b c p : Position}

theorem not_before_self (a : Position) : ¬ a.before a = true := by
  rw [before_iff]
  omega

theorem not_before_trans (h : ¬ b.before a = true) (h' : ¬ c.before b = true) :
    ¬ c.before a = true := by
  rw [before_iff] at h h' ⊢
  omega

theorem before_iff_not_before (a b : Position) :
    a.before b = true ↔ ¬ b.before a = true ∧ ¬ ¬ a.before b = true := by
  rw [before_iff, before_iff]
  omega

/-- Positions neither of which comes before the other are the same one. -/
theorem eq_of_not_before (h : ¬ b.before a = true) (h' : ¬ a.before b = true) : a = b := by
  obtain ⟨line, column⟩ := a
  obtain ⟨line', column'⟩ := b
  simp only [before_iff] at h h'
  rw [mk.injEq]
  omega

/-- Positions in reading order. -/
instance : PartialOrder Position where
  le a b := ¬ b.before a = true
  lt a b := a.before b = true
  le_refl := not_before_self
  le_trans _ _ _ := not_before_trans
  lt_iff_le_not_ge := before_iff_not_before
  le_antisymm _ _ := eq_of_not_before

theorem le_iff : a ≤ b ↔ a.line < b.line ∨ a.line = b.line ∧ a.column ≤ b.column := by
  change ¬ b.before a = true ↔ _
  rw [before_iff]
  omega

theorem lt_iff : a < b ↔ a.line < b.line ∨ a.line = b.line ∧ a.column < b.column := before_iff

theorem earlier_eq (h : a ≤ b) : a.earlier b = a := if_neg h

theorem later_eq (h : a ≤ b) : a.later b = b := by
  unfold later
  split
  next => rfl
  next hBefore => exact le_antisymm h hBefore

theorem earlier_le_left (a b : Position) : a.earlier b ≤ a := by
  unfold earlier
  split
  next hBefore => exact (lt_iff.2 (before_iff.1 hBefore)).le
  next => exact le_refl a

theorem earlier_le_right (a b : Position) : a.earlier b ≤ b := by
  unfold earlier
  split
  next => exact le_refl b
  next hLe => exact hLe

theorem le_later_left (a b : Position) : a ≤ a.later b := by
  unfold later
  split
  next hBefore => exact (lt_iff.2 (before_iff.1 hBefore)).le
  next => exact le_refl a

theorem le_later_right (a b : Position) : b ≤ a.later b := by
  unfold later
  split
  next => exact le_refl b
  next hLe => exact hLe

def CountsFromOne (p : Position) : Prop := 1 ≤ p.column

theorem CountsFromOne.after (h : p.CountsFromOne) (c : Char) : (p.after c).CountsFromOne := by
  unfold Position.after
  split
  · exact Nat.le_refl _
  · exact Nat.le_succ_of_le h

theorem lt_after (p : Position) (c : Char) : p < p.after c := by
  rw [lt_iff]
  unfold Position.after
  split
  · exact .inl (Nat.lt_succ_self _)
  · exact .inr ⟨rfl, Nat.lt_succ_self _⟩

theorem CountsFromOne.past (h : p.CountsFromOne) (cs : List Char) : (p.past cs).CountsFromOne := by
  induction cs generalizing p with
  | nil => exact h
  | cons c cs ih => exact ih (h.after c)

theorem le_past (p : Position) (cs : List Char) : p ≤ p.past cs := by
  induction cs generalizing p with
  | nil => exact le_refl p
  | cons c cs ih => exact (lt_after p c).le.trans (ih _)

end Position

/-- The range that covers two others in order starts with the first and ends with the second. -/
theorem Span.merge_eq {a b : Span} (hStart : a.start ≤ b.start) (hStop : a.stop ≤ b.stop) :
    a.merge b = ⟨a.start, b.stop⟩ := by
  rw [Span.merge, Position.earlier_eq hStart, Position.later_eq hStop]

namespace Script

/-- A token that ends before the next one starts. -/
def TokenKind.IsSolid : TokenKind → Prop
  | .mark .newline | .mark .endOfInput | .textStart _ | .textPart _ => False
  | _ => True

theorem TokenKind.IsSolid.ne_endOfInput {kind : TokenKind} (h : kind.IsSolid) :
    kind ≠ .mark .endOfInput := by
  rintro rfl
  exact h

/-- One token comes before another one. -/
structure Token.Precedes (t u : Token) : Prop where
  start : t.span.start ≤ u.span.start
  stop : t.span.stop ≤ u.span.stop
  apart : t.kind.IsSolid → t.span.stop < u.span.start

/-- Tokens stand one after another from the first position up to the second one. -/
structure PlacedInOrder (p : Position) (tokens : List Token) (q : Position) : Prop where
  le : p ≤ q
  counts : q.CountsFromOne
  start : ∀ t ∈ tokens, p ≤ t.span.start
  ordered : ∀ t ∈ tokens, t.span.start ≤ t.span.stop
  stop : ∀ t ∈ tokens, t.span.stop ≤ q
  apart : ∀ t ∈ tokens, t.kind.IsSolid → t.span.stop < q
  precede : tokens.Pairwise Token.Precedes

namespace PlacedInOrder

variable {p q next : Position} {tokens tokens' : List Token}

theorem nil (hLe : p ≤ q) (hCounts : q.CountsFromOne) : PlacedInOrder p [] q :=
  ⟨hLe, hCounts, nofun, nofun, nofun, nofun, .nil⟩

/-- What ends by a position comes before what starts from there on. -/
theorem append (h : PlacedInOrder p tokens q) (h' : PlacedInOrder q tokens' next) :
    PlacedInOrder p (tokens ++ tokens') next where
  le := h.le.trans h'.le
  counts := h'.counts
  start := List.forall_mem_append.2 ⟨h.start, fun t ht => h.le.trans (h'.start t ht)⟩
  ordered := List.forall_mem_append.2 ⟨h.ordered, h'.ordered⟩
  stop := List.forall_mem_append.2 ⟨fun t ht => (h.stop t ht).trans h'.le, h'.stop⟩
  apart := List.forall_mem_append.2
    ⟨fun t ht hSolid => (h.apart t ht hSolid).trans_le h'.le, h'.apart⟩
  precede := by
    refine List.pairwise_append.2 ⟨h.precede, h'.precede, fun t ht u hu => ?_⟩
    have hBetween := h'.start u hu
    exact {
      start := (h.ordered t ht).trans ((h.stop t ht).trans hBetween)
      stop := (h.stop t ht).trans (hBetween.trans (h'.ordered u hu))
      apart := fun hSolid => (h.apart t ht hSolid).trans_le hBetween }

/-- A token from one position to another one that is further on in its line, or a line end. -/
theorem token {kind : TokenKind} (hLt : p < q) (hCounts : q.CountsFromOne)
    (hSolid : kind.IsSolid → 2 ≤ q.column) : PlacedInOrder p [⟨kind, p.spanTo q⟩] q := by
  have hStart := Position.lt_iff.1 hLt
  have hColumn : 1 ≤ q.column := hCounts
  refine ⟨hLt.le, hCounts, ?_, ?_, ?_, ?_, List.pairwise_singleton _ _⟩
  all_goals simp only [List.mem_singleton, forall_eq, Position.spanTo]
  · exact le_refl p
  · rw [Position.le_iff]
    dsimp only
    omega
  · rw [Position.le_iff]
    dsimp only
    omega
  · intro h
    have hBehind := hSolid h
    rw [Position.lt_iff]
    dsimp only
    omega

/-- The end mark stands where the tokens end. -/
theorem finish (h : PlacedInOrder p tokens q) :
    PlacedInOrder p (tokens ++ [⟨.mark .endOfInput, .point q⟩]) q := by
  refine h.append ⟨le_refl q, h.counts, ?_, ?_, ?_, ?_, List.pairwise_singleton _ _⟩
  all_goals simp [Span.point, TokenKind.IsSolid]

/-- Something may be skipped before tokens. -/
theorem skip (h : PlacedInOrder q tokens next) (hLe : p ≤ q) : PlacedInOrder p tokens next :=
  { h with le := hLe.trans h.le, start := fun t ht => hLe.trans (h.start t ht) }

/-- A text before a hole ends with the mark that opens the hole. -/
theorem opening {text : TokenKind} (hText : ¬ text.IsSolid) (hLe : p ≤ q)
    (hCounts : q.CountsFromOne) :
    PlacedInOrder p [⟨text, p.spanTo ⟨q.line, q.column + 2⟩⟩,
      ⟨.mark .holeStart, q.spanTo ⟨q.line, q.column + 2⟩⟩] ⟨q.line, q.column + 2⟩ := by
  have hColumn : 1 ≤ q.column := hCounts
  have hBefore := Position.le_iff.1 hLe
  have hStop : max (q.column + 2 - 1) 1 = q.column + 1 := by omega
  have hPrecedes : Token.Precedes ⟨text, p.spanTo ⟨q.line, q.column + 2⟩⟩
      ⟨.mark .holeStart, q.spanTo ⟨q.line, q.column + 2⟩⟩ :=
    ⟨hLe, le_refl _, fun hSolid => (hText hSolid).elim⟩
  refine ⟨?_, Nat.le_add_left _ _, ?_, ?_, ?_, ?_, List.pairwise_pair.2 hPrecedes⟩
  all_goals simp only [List.mem_cons, List.not_mem_nil, or_false, forall_eq_or_imp, forall_eq,
    Position.spanTo, Position.le_iff, Position.lt_iff, hStop]
  all_goals grind

end PlacedInOrder

namespace Scan

variable {file : SourceFile}

/-- A text without faults gives tokens that start where its scan did and end where it has come
to. -/
theorem placedInOrder_takeText (s : Scan) (file : SourceFile) (triple opening : Bool)
    {start : Position}
    (hStart : start ≤ s.position) (hCounts : s.position.CountsFromOne)
    (h : (s.takeText file triple opening start).2.report.total = 0) :
    PlacedInOrder start (s.takeText file triple opening start).1
      (s.takeText file triple opening start).2.position := by
  obtain ⟨hNone, hFaults, hEnded⟩ := s.scanned_of_total file triple opening start h
  obtain ⟨-, body, meant, hReads⟩ := readsWritten_scanText triple [] [] s.position s.rest hFaults
  have hBody := hCounts.past body
  have hLe := hStart.trans (s.position.le_past body)
  unfold takeText
  dsimp only
  generalize scanText triple [] [] s.position s.rest = r at hFaults hEnded hReads ⊢
  cases hEnding : r.ending with
  | closed =>
      have hQuotes : 0 < (quotes triple).length := by cases triple <;> decide
      have hPosition := hReads.position
      rw [hEnding, Position.past_append, TextEnd.mark, past_quotes] at hPosition
      simp only [hPosition]
      refine .token (hLe.trans_lt ?_) (Nat.le_add_right_of_le hBody) fun _ => ?_
      · rw [Position.lt_iff]
        dsimp only
        omega
      · have hColumn : 1 ≤ (s.position.past body).column := hBody
        dsimp only
        omega
  | hole =>
      have hFull : s.report.isFull = false := by simp [Report.isFull, hNone, maxProblems]
      have hPosition := hReads.position
      rw [hEnding, Position.past_append, TextEnd.mark, Position.past_of_notMem (by decide)]
        at hPosition
      simp only [hFaults, List.foldl_nil, hPosition, hFull]
      refine .opening ?_ hLe hBody
      cases opening <;> exact id
  | unterminated => exact (hEnded hEnding).elim

theorem position_brace (s : Scan) (symbol : Symbol) :
    (s.brace symbol).2.position = s.position := by
  unfold brace
  split <;> rfl

/-- Columns still count from one behind a lexeme. -/
theorem countsFromOne_behind {s : Scan} (hCounts : s.position.CountsFromOne) (c : Char)
    (cs : List Char) :
    (s.behind c cs).position.CountsFromOne := by
  unfold behind
  dsimp only
  split
  · exact hCounts.after c
  · exact Nat.le_add_right_of_le hCounts

/-- A lexeme takes at least one character, so that the scan goes forward. -/
theorem lt_behind (s : Scan) (c : Char) (cs : List Char) :
    s.position < (s.behind c cs).position := by
  unfold behind
  dsimp only
  split
  · exact Position.lt_after _ _
  · rw [Position.lt_iff]
    exact .inr ⟨rfl, Nat.lt_add_of_pos_right (Lexeme.length_ofCode_pos c cs)⟩

/-- A lexeme is placed where it is read, as itself or as another token that is as solid. -/
theorem placedInOrder_lexeme {s : Scan} (hCounts : s.position.CountsFromOne) {c : Char}
    {cs : List Char}
    {kind token : TokenKind} (hKind : (Lexeme.ofCode c cs).kind = some kind)
    (hToken : token.IsSolid → kind.IsSolid) :
    PlacedInOrder s.position [⟨token, s.position.spanTo (s.behind c cs).position⟩]
      (s.behind c cs).position := by
  refine .token (s.lt_behind c cs) (countsFromOne_behind hCounts c cs) fun hSolid => ?_
  unfold behind
  dsimp only
  split
  next hLine =>
    obtain rfl := eq_of_beq hLine
    obtain rfl : .mark .newline = kind := Option.some.inj hKind
    exact (hToken hSolid).elim
  next =>
    have hColumn : 1 ≤ s.position.column := hCounts
    have hLength := Lexeme.length_ofCode_pos c cs
    dsimp only
    omega

/-- A string that code starts with is placed from its quotes on. -/
theorem placedInOrder_string (file : SourceFile) {s : Scan} (hCounts : s.position.CountsFromOne)
    {cs : List Char} {triple : Bool} (hRest : s.rest = '"' :: cs)
    (hTriple : (cs.take 2 == ['"', '"']) = triple)
    (hNone : ((s.skip (if triple = true then 3 else 1)).takeText file triple true
      s.position).2.report.total = 0) :
    PlacedInOrder s.position
      ((s.skip (if triple = true then 3 else 1)).takeText file triple true s.position).1
      ((s.skip (if triple = true then 3 else 1)).takeText file triple true
        s.position).2.position := by
  refine placedInOrder_takeText _ file triple true ?_ ?_ hNone
  · rw [(skip_quotes hRest hTriple).1]
    exact Position.le_past _ _
  · rw [(skip_quotes hRest hTriple).1]
    exact hCounts.past _

/-- Code without faults gives tokens one behind the other, from where the scan was to where it has
come to. -/
theorem placedInOrder_takeCode (file : SourceFile) (fuel : Nat) {s : Scan}
    (hCounts : s.position.CountsFromOne) :
    (s.takeCode file fuel).2.1.report.total = 0 →
      PlacedInOrder s.position (s.takeCode file fuel).1 (s.takeCode file fuel).2.1.position := by
  induction fuel generalizing s with
  | zero => exact fun _ => (PlacedInOrder.nil (le_refl _) hCounts).finish
  | succ fuel ih =>
      obtain ⟨gap, hSkips⟩ := s.exists_skips
      have hGap : s.position ≤ s.skipIgnored.position := hSkips.position ▸ s.position.le_past gap
      have hCounts' : s.skipIgnored.position.CountsFromOne := hSkips.position ▸ hCounts.past gap
      have hFinish := (PlacedInOrder.nil hGap hCounts').finish
      obtain ⟨outcome, hRound, hTaken⟩ := s.exists_round file
      rw [hTaken]
      generalize s.skipIgnored = s' at hGap hCounts' hFinish hRound
      intro hNone
      cases hRound with
      | full => exact hFinish
      | finished => exact hFinish
      | unfinished => exact hFinish
      | string hRest hTriple =>
        exact (placedInOrder_string file hCounts' hRest hTriple hNone).skip hGap
      | @faulty c cs =>
          have hLe := hGap.trans (s'.lt_behind c cs).le
          have hBehind := countsFromOne_behind hCounts' c cs
          rw [← s'.position_noted file] at hLe hBehind
          exact (ih hBehind hNone).skip hLe
      | symbol _ _ hKind =>
          dsimp only [Sum.elim_inl, id]
          rw [position_brace, position_noted]
          exact (placedInOrder_lexeme hCounts' hKind fun _ => trivial).skip hGap
      | token _ _ hKind =>
          dsimp only [Sum.elim_inl, id]
          rw [position_noted]
          exact (placedInOrder_lexeme hCounts' hKind id).skip hGap

/-- A step without faults places its tokens in order, behind where the scan was. -/
theorem placedInOrder_step {s : Scan} {r : List Token × Scan × Bool} (hStep : s.Step file r)
    (hCounts : s.position.CountsFromOne) (hNone : r.2.1.report.total = 0) :
    PlacedInOrder s.position r.1 r.2.1.position := by
  cases hStep with
  | full => exact (PlacedInOrder.nil (le_refl _) hCounts).finish
  | @text triple outer => exact s.placedInOrder_takeText file triple false (le_refl _) hCounts hNone
  | code => exact placedInOrder_takeCode file _ hCounts hNone

/-- Tokens are placed behind those that are done. -/
theorem placedInOrder_takeAll (file : SourceFile) (fuel : Nat) {done : List Token} {s : Scan}
    {p : Position} (h : PlacedInOrder p done.reverse s.position) :
    (s.takeAll file fuel done).2.total = 0 →
    ∃ q, PlacedInOrder p (s.takeAll file fuel done).1 q := by
  induction fuel generalizing done s with
  | zero =>
      intro _
      rw [takeAll, List.reverse_cons]
      exact ⟨s.position, h.finish⟩
  | succ fuel ih =>
      obtain ⟨r, hStep, hTaken⟩ := s.exists_step file
      have hAll : r.2.1.report.total = 0 →
          PlacedInOrder p (r.1.reverse ++ done).reverse r.2.1.position := by
        intro hNone
        rw [List.reverse_append, List.reverse_reverse]
        exact h.append (placedInOrder_step hStep h.counts hNone)
      rw [hTaken]
      split
      next => exact fun hNone => ⟨_, hAll hNone⟩
      next =>
        -- No later step takes back a fault of this one.
        exact fun hNone => ih (hAll (readsAll_takeAll file fuel _ _ hNone).1) hNone

end Scan

/-- The tokens of a script without faults stand one after another from its first position on. -/
theorem exists_placedInOrder (file : SourceFile) (h : (tokens file).2.total = 0) :
    ∃ q, PlacedInOrder .origin (tokens file).1 q :=
  Scan.placedInOrder_takeAll file _ (.nil (le_refl _) (Nat.le_refl 1)) h

end Script

end Metagen
