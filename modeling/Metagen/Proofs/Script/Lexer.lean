import Metagen.Script.Lexer
import Mathlib.Data.List.Basic

/-! Where tokens stand. Every token and every fault of a script starts at a position of its text,
and only the end mark and what is missing at the end may start behind the last line. -/

namespace Metagen

def Position.past (p : Position) (cs : List Char) : Position := cs.foldl Position.after p

namespace Position

theorem past_append (p : Position) (first second : List Char) :
    p.past (first ++ second) = (p.past first).past second := List.foldl_append

/-- Characters on one line only move the column. -/
theorem past_of_notMem {cs : List Char} (h : '\n' ∉ cs) (p : Position) :
    p.past cs = ⟨p.line, p.column + cs.length⟩ := by
  induction cs generalizing p with
  | nil => rfl
  | cons c cs ih =>
      have hc : (c == '\n') = false := beq_false_of_ne fun hc => h (by simp [hc])
      have hAfter : p.after c = ⟨p.line, p.column + 1⟩ := by simp [after, hc]
      change (p.after c).past cs = _
      rw [ih (fun hMem => h (List.mem_cons_of_mem _ hMem)), hAfter, List.length_cons,
        Nat.add_assoc, Nat.add_comm 1]

/-- Line ends alone move the line. -/
theorem line_past (p : Position) (cs : List Char) :
    (p.past cs).line = p.line + cs.count '\n' := by
  induction cs generalizing p with
  | nil => rfl
  | cons c cs ih =>
      change ((p.after c).past cs).line = _
      rw [ih, List.count_cons, after]
      split
      · simp only
        omega
      · rfl

end Position

namespace Script

/-- A place in a text: a position, and what follows it. -/
structure Place where
  position : Position
  rest : List Char

namespace Place

/-- Reading on from one place comes to the other. -/
def LeadsTo (a b : Place) : Prop :=
  ∃ cs, a.rest = cs ++ b.rest ∧ b.position = a.position.past cs

/-- The position is one of the text from here on; it may be the one behind the text. -/
def HasPosition (a : Place) (p : Position) : Prop := ∃ rest, a.LeadsTo ⟨p, rest⟩

/-- A character of the text from here on stands at the position. -/
def HasChar (a : Place) (p : Position) : Prop := ∃ c rest, a.LeadsTo ⟨p, c :: rest⟩

/-- The position is one of the text from here on, on a line that holds a character of it. -/
def HasLine (a : Place) (p : Position) : Prop :=
  a.HasPosition p ∧ ∃ q, a.HasChar q ∧ q.line = p.line

variable {a b : Place} {p : Position}

theorem LeadsTo.refl (a : Place) : a.LeadsTo a := ⟨[], rfl, rfl⟩

/-- What leads from one place to another and on to a third one leads from the first to the third. -/
theorem LeadsTo.trans {c : Place} (h : a.LeadsTo b) (h' : b.LeadsTo c) : a.LeadsTo c := by
  obtain ⟨first, hRest, hPosition⟩ := h
  obtain ⟨second, hRest', hPosition'⟩ := h'
  refine ⟨first ++ second, ?_, ?_⟩
  · rw [hRest, hRest', List.append_assoc]
  · rw [hPosition', hPosition, Position.past_append]

theorem LeadsTo.after (c : Char) (rest : List Char) (p : Position) :
    LeadsTo ⟨p, c :: rest⟩ ⟨p.after c, rest⟩ := ⟨[c], rfl, rfl⟩

/-- Some characters of one line are read. -/
theorem LeadsTo.along {cs : List Char} {n : Nat} (hLength : n ≤ cs.length)
    (hLine : '\n' ∉ cs.take n) (p : Position) :
    LeadsTo ⟨p, cs⟩ ⟨⟨p.line, p.column + n⟩, cs.drop n⟩ := by
  refine ⟨cs.take n, (List.take_append_drop n cs).symm, ?_⟩
  rw [Position.past_of_notMem hLine, List.length_take, Nat.min_eq_left hLength]

theorem LeadsTo.hasPosition (h : a.LeadsTo b) : a.HasPosition b.position := ⟨b.rest, h⟩

theorem HasPosition.before (h : b.HasPosition p) (hBefore : a.LeadsTo b) : a.HasPosition p := by
  obtain ⟨rest, hLeads⟩ := h
  exact ⟨rest, hBefore.trans hLeads⟩

theorem HasChar.before (h : b.HasChar p) (hBefore : a.LeadsTo b) : a.HasChar p := by
  obtain ⟨c, rest, hLeads⟩ := h
  exact ⟨c, rest, hBefore.trans hLeads⟩

theorem HasLine.before (h : b.HasLine p) (hBefore : a.LeadsTo b) : a.HasLine p := by
  obtain ⟨hHas, q, hChar, hLine⟩ := h
  exact ⟨hHas.before hBefore, q, hChar.before hBefore, hLine⟩

theorem HasChar.hasLine (h : a.HasChar p) : a.HasLine p := by
  obtain ⟨c, rest, hLeads⟩ := h
  exact ⟨⟨c :: rest, hLeads⟩, p, ⟨c, rest, hLeads⟩, rfl⟩

/-- The place behind characters of one line is on the line of these. -/
theorem HasLine.along {cs : List Char} {c : Char} {n : Nat} (h : a.LeadsTo ⟨p, c :: cs⟩)
    (hLength : n ≤ (c :: cs).length) (hLine : '\n' ∉ (c :: cs).take n) :
    a.HasLine ⟨p.line, p.column + n⟩ :=
  ⟨(h.trans (.along hLength hLine p)).hasPosition, p, ⟨c, cs, h⟩, rfl⟩

end Place

/-- What comes of scanning a text from a place: where the scan stops, where a hole is opened, and
where its faults are. -/
structure TextScan.Sound (a : Place) (before : List (LexFault × Span)) (r : TextScan) : Prop where
  place : a.LeadsTo ⟨r.position, r.rest⟩
  hole : r.ending = .hole → a.HasLine r.position ∧
    a.HasChar ⟨r.position.line, r.position.column - 2⟩
  faults : ∀ f ∈ r.faults, f ∈ before ∨ a.HasChar f.2.start

/-- A scan of a text that is sound from a later place is sound from the place before it. -/
theorem TextScan.Sound.before {a b : Place} {faults faults' : List (LexFault × Span)}
    {r : TextScan} (h : r.Sound b faults') (hBefore : a.LeadsTo b)
    (hFaults : ∀ f ∈ faults', f ∈ faults ∨ a.HasChar f.2.start) : r.Sound a faults where
  place := hBefore.trans h.place
  hole hHole := ⟨(h.hole hHole).1.before hBefore, (h.hole hHole).2.before hBefore⟩
  faults f hf := (h.faults f hf).elim (hFaults f) fun hChar => .inr (hChar.before hBefore)

/-- Quotes, one or three, stand on one line. -/
theorem leadsTo_quotes {triple : Bool} {cs : List Char} (p : Position)
    (hQuotes : triple = true → cs.take 2 = ['"', '"']) :
    Place.LeadsTo ⟨p, '"' :: cs⟩ ⟨⟨p.line, p.column + if triple then 3 else 1⟩,
      ('"' :: cs).drop (if triple then 3 else 1)⟩ := by
  cases triple with
  | false => exact .along (by simp) (by simp) p
  | true =>
      have hTaken := hQuotes rfl
      have hLength := congrArg List.length hTaken
      rw [List.length_take] at hLength
      refine .along ?_ ?_ p
      · simp only [if_pos, List.length_cons] at hLength ⊢
        omega
      · simp [hTaken]

/-- The scan of a text stays in the source, and so does every fault that it finds. -/
theorem sound_scanText (triple : Bool) (done : List Char) (faults : List (LexFault × Span))
    (p : Position) (cs : List Char) :
    (scanText triple done faults p cs).Sound ⟨p, cs⟩ faults := by
  fun_induction scanText triple done faults p cs with
  | case1 done faults p =>
      exact ⟨.refl _, by simp, fun f hf => .inl (List.mem_reverse.1 hf)⟩
  | case2 done faults p c cs hClose quotes =>
      obtain ⟨hQuote, hTriple⟩ := Bool.and_eq_true_iff.1 hClose
      obtain rfl := eq_of_beq hQuote
      refine ⟨leadsTo_quotes p fun hEq => ?_, by simp, fun f hf => .inl (List.mem_reverse.1 hf)⟩
      simpa [hEq] using hTriple
  | case3 done faults p c cs =>
      exact ⟨.refl _, by simp, fun f hf => .inl (List.mem_reverse.1 hf)⟩
  | case4 done faults p c cs _ _ hHole =>
      obtain ⟨hDollar, hBrace⟩ := Bool.and_eq_true_iff.1 hHole
      obtain rfl := eq_of_beq hDollar
      obtain ⟨more, rfl⟩ := List.head?_eq_some_iff.1 (eq_of_beq hBrace)
      have hLeads : Place.LeadsTo ⟨p, '$' :: '{' :: more⟩ ⟨⟨p.line, p.column + 2⟩, more⟩ :=
        .along (n := 2) (by simp) (by simp) p
      refine ⟨hLeads, fun _ => ⟨.along (.refl _) (by simp) (by simp), ?_⟩,
        fun f hf => .inl (List.mem_reverse.1 hf)⟩
      exact ⟨'$', '{' :: more, .refl _⟩
  | case5 done faults p c _ _ fault =>
      refine ⟨.after c [] p, by simp, fun f hf => ?_⟩
      rcases List.mem_cons.1 (List.mem_reverse.1 hf) with rfl | hOld
      · exact .inr ⟨c, [], .refl _⟩
      · exact .inl hOld
  | case6 done faults p c _ _ e more next meant _ _ _ ih =>
      exact ih.before ((Place.LeadsTo.after c (e :: more) p).trans (.after e more _))
        fun f hf => .inl hf
  | case7 done faults p c _ _ e more next _ shown others _ fault _ _ ih =>
      refine ih.before ((Place.LeadsTo.after c (e :: more) p).trans (.after e more _)) ?_
      rintro f (_ | ⟨_, hf⟩)
      · exact .inr ⟨c, e :: more, .refl _⟩
      · exact .inl hf
  | case8 done faults p c cs _ _ _ _ ih => exact ih.before (.after c cs p) fun f hf => .inl hf

namespace Lexeme

/-- The lexeme is written at the start of the code, on one line. -/
structure StartsCode (cs : List Char) (l : Lexeme) : Prop where
  length_le : l.length ≤ cs.length
  line : '\n' ∉ cs.take l.length

theorem StartsCode.of_eq {cs written rest : List Char} {l : Lexeme} (hCode : cs = written ++ rest)
    (hLine : '\n' ∉ written) (hLength : l.length = written.length) : l.StartsCode cs := by
  refine ⟨?_, ?_⟩
  · rw [hLength, hCode, List.length_append]
    exact Nat.le_add_right _ _
  · rw [hLength, hCode, List.take_left]
    exact hLine

theorem notMem_takeWhile {p : Char → Bool} (hp : p '\n' = false) (cs : List Char) :
    '\n' ∉ cs.takeWhile p := by
  intro hMem
  have hHolds := List.all_eq_true.1 (List.all_takeWhile (p := p) (l := cs)) _ hMem
  rw [hp] at hHolds
  cases hHolds

/-- An integer is written at the start of the code, on one line. -/
theorem startsCode_integer {base : Nat} {cs written digits rest : List Char}
    (hCode : cs = written ++ rest) (hLine : '\n' ∉ written) :
    (integer base written digits).StartsCode cs := by
  unfold integer
  split
  · exact .of_eq hCode hLine rfl
  · exact .of_eq hCode hLine rfl

/-- A number with decimal digits is written at the start of the code, on one line. -/
theorem startsCode_decimal (cs : List Char) : (decimal cs).StartsCode cs := by
  have hWhole : '\n' ∉ cs.takeWhile isDigitOrGap := notMem_takeWhile (by decide) cs
  have hCode : cs = cs.takeWhile isDigitOrGap ++ cs.dropWhile isDigitOrGap :=
    List.takeWhile_append_dropWhile.symm
  unfold decimal
  dsimp only
  split
  next d more hRest =>
    split
    · rw [hRest] at hCode
      have hWritten : cs = cs.takeWhile isDigitOrGap ++
          '.' :: (d :: more).takeWhile isDigitOrGap ++ (d :: more).dropWhile isDigitOrGap := by
        rw [List.append_assoc, List.cons_append, List.takeWhile_append_dropWhile]
        exact hCode
      refine .of_eq hWritten ?_ rfl
      · have hMore : '\n' ∉ (d :: more).takeWhile isDigitOrGap :=
          notMem_takeWhile (by decide) (d :: more)
        rw [List.mem_append, List.mem_cons]
        rintro (hMem | hMem | hMem)
        · exact hWhole hMem
        · cases hMem
        · exact hMore hMem
    · exact startsCode_integer hCode hWhole
  next => exact startsCode_integer hCode hWhole

/-- A number is written at the start of the code, on one line, whatever its base is. -/
theorem startsCode_number (cs : List Char) : (number cs).StartsCode cs := by
  unfold number
  split
  next x more =>
    split
    next hHex =>
      have hWritten : '0' :: x :: more =
          '0' :: x :: more.takeWhile isHexOrGap ++ more.dropWhile isHexOrGap := by
        simp [List.takeWhile_append_dropWhile]
      refine startsCode_integer hWritten ?_
      · have hDigits : '\n' ∉ more.takeWhile isHexOrGap := notMem_takeWhile (by decide) more
        rw [List.mem_cons, List.mem_cons]
        rintro (hMem | rfl | hMem)
        · cases hMem
        · cases hHex
        · exact hDigits hMem
    next => exact startsCode_decimal _
  next => exact startsCode_decimal _

theorem startsCode_word (cs : List Char) : (word cs).StartsCode cs := by
  unfold word
  refine .of_eq (List.takeWhile_append_dropWhile (p := Text.isIdentChar)).symm
    (notMem_takeWhile (by decide) cs) ?_
  simp

/-- A symbol is written at the start of the code, on one line. -/
theorem startsCode_symbol {cs : List Char} {symbol : Symbol} {n : Nat}
    (h : symbol? cs = some (symbol, n)) :
    (⟨some (.mark (.symbol symbol)), n, none⟩ : Lexeme).StartsCode cs := by
  unfold symbol? at h
  split at h
  case h_5 c cs _ _ _ _ =>
    have hOne : n = 1 ∧ c ≠ '\n' := by
      split at h <;> cases h <;> exact ⟨rfl, by decide⟩
    obtain ⟨rfl, hLine⟩ := hOne
    exact ⟨by simp, by simpa using Ne.symm hLine⟩
  case h_6 => cases h
  all_goals
    cases h
    exact ⟨by simp, by simp⟩

/-- Whatever code starts with but a line end is on one line. -/
theorem startsCode_ofCode {c : Char} (hc : c ≠ '\n') (cs : List Char) :
    (ofCode c cs).StartsCode (c :: cs) := by
  unfold ofCode
  rw [if_neg (by simpa using hc)]
  split
  · exact startsCode_number _
  · split
    · exact startsCode_word _
    · split
      next symbol n hSymbol => exact startsCode_symbol hSymbol
      next => exact ⟨by simp, by simpa using Ne.symm hc⟩

/-- No code is the end mark. -/
theorem ofCode_kind (c : Char) (cs : List Char) :
    (ofCode c cs).kind ≠ some (.mark .endOfInput) := by
  have hInteger : ∀ base written digits,
      (integer base written digits).kind ≠ some (.mark .endOfInput) := by
    intro base written digits
    unfold integer
    split <;> nofun
  have hDecimal : ∀ cs, (decimal cs).kind ≠ some (.mark .endOfInput) := by
    intro cs
    unfold decimal
    dsimp only
    split
    · split
      · nofun
      · exact hInteger _ _ _
    · exact hInteger _ _ _
  unfold ofCode
  split
  · nofun
  · split
    · unfold number
      split
      · split
        · exact hInteger _ _ _
        · exact hDecimal _
      · exact hDecimal _
    · split
      · unfold word
        dsimp only
        split <;> nofun
      · split <;> nofun

end Lexeme

/-- The token is not the end mark, and starts on a line that holds a character of the text from a
place on. -/
structure Token.Stands (a : Place) (t : Token) : Prop where
  kind : t.kind ≠ .mark .endOfInput
  hasLine : a.HasLine t.span.start

/-- All problems that a report keeps start at positions of the text from a place on, and it keeps
one if there was any. -/
structure ReportStands (a : Place) (r : Report) : Prop where
  kept : ∀ p ∈ r.kept, a.HasPosition p.span.start
  counted : r.kept = [] → r.total = 0

theorem reportStands_empty (a : Place) : ReportStands a {} := ⟨nofun, fun _ => rfl⟩

/-- A report whose problems stand in the source still does with one more of them. -/
theorem ReportStands.push {a : Place} {r : Report} (h : ReportStands a r) {p : Problem}
    (hProblem : a.HasPosition p.span.start) : ReportStands a (r.push p) := by
  unfold Report.push
  split
  next =>
    refine ⟨fun q hq => ?_, by simp⟩
    rcases List.mem_append.1 hq with hOld | hNew
    · exact h.kept q hOld
    · rw [List.mem_singleton.1 hNew]
      exact hProblem
  next hFull =>
    refine ⟨h.kept, fun hNone => (hFull ?_).elim⟩
    rw [show r.kept = [] from hNone]
    decide

/-- What is being read is a hole of a string. -/
def Mode.IsHole : Mode → Prop
  | .text _ => False
  | .hole .. => True

namespace Scan

def place (s : Scan) : Place := ⟨s.position, s.rest⟩

/-- The scan has read on from a place. Texts of strings that go on after a hole are at most the
innermost mode, and then the scan stands on the line where the hole has been closed. -/
structure Sound (a : Place) (s : Scan) : Prop where
  place : a.LeadsTo s.place
  report : ReportStands a s.report
  outer : ∀ mode ∈ s.modes.tail, mode.IsHole
  text : ∀ mode ∈ s.modes.head?, mode.IsHole ∨ a.HasLine s.position

variable {a : Place} {s : Scan}

/-- The scan reads code. -/
theorem Sound.of_holes (hPlace : a.LeadsTo s.place) (hReport : ReportStands a s.report)
    (hModes : ∀ mode ∈ s.modes, mode.IsHole) : s.Sound a :=
  ⟨hPlace, hReport, fun mode hMode => hModes mode (List.mem_of_mem_tail hMode),
    fun mode hMode => .inl (hModes mode (List.mem_of_mem_head? hMode))⟩

theorem Sound.fault (h : s.Sound a) (file : SourceFile) (f : LexFault) {span : Span}
    (hSpan : a.HasPosition span.start) : (s.fault file f span).Sound a :=
  ⟨h.place, h.report.push hSpan, h.outer, h.text⟩

theorem Sound.skip (h : s.Sound a) (hModes : ∀ mode ∈ s.modes, mode.IsHole) {n : Nat}
    (hLength : n ≤ s.rest.length) (hLine : '\n' ∉ s.rest.take n) : (s.skip n).Sound a :=
  .of_holes (h.place.trans (.along hLength hLine s.position)) h.report hModes

/-- Skipping characters that are no line ends keeps a scan sound. -/
theorem Sound.skipWhile (h : s.Sound a) (hModes : ∀ mode ∈ s.modes, mode.IsHole)
    {p : Char → Bool} (hp : p '\n' = false) :
    (s.skip (s.rest.takeWhile p).length).Sound a := by
  have hPrefix := List.takeWhile_prefix p (l := s.rest)
  refine h.skip hModes hPrefix.length_le ?_
  rw [← List.prefix_iff_eq_take.1 hPrefix]
  exact Lexeme.notMem_takeWhile hp s.rest

/-- Gaps and comments between tokens are passed without leaving the source, and no hole is opened or
closed. -/
theorem Sound.skipIgnored (h : s.Sound a) (hModes : ∀ mode ∈ s.modes, mode.IsHole) :
    s.skipIgnored.Sound a ∧ s.skipIgnored.modes = s.modes := by
  have hGaps : (s.skip (s.rest.takeWhile isGap).length).Sound a :=
    h.skipWhile hModes (by decide)
  unfold Scan.skipIgnored
  dsimp only
  split
  · exact ⟨hGaps.skipWhile hModes (by decide), rfl⟩
  · exact ⟨hGaps, rfl⟩

/-- Faults of a text are recorded. -/
theorem Sound.faults (h : s.Sound a) (file : SourceFile) (faults : List (LexFault × Span))
    (hFaults : ∀ f ∈ faults, a.HasPosition f.2.start) :
    (faults.foldl (fun s (f, span) => s.fault file f span) s).Sound a ∧
      (faults.foldl (fun s (f, span) => s.fault file f span) s).modes = s.modes := by
  induction faults generalizing s with
  | nil => exact ⟨h, rfl⟩
  | cons first rest ih =>
      exact ih (h.fault file first.1 (hFaults first List.mem_cons_self))
        fun f hf => hFaults f (List.mem_cons_of_mem _ hf)

/-- A text becomes tokens that stand where the text starts and where it opens a hole. -/
theorem Sound.takeText (h : s.Sound a) (file : SourceFile) (triple opening : Bool)
    (hModes : opening = true → ∀ mode ∈ s.modes, mode.IsHole) {start : Position}
    (hStart : a.HasLine start) :
    (∀ t ∈ (s.takeText file triple opening start).1, t.Stands a) ∧
      (s.takeText file triple opening start).2.Sound a := by
  have hScanned := sound_scanText triple [] [] s.position s.rest
  have hFaults := h.faults file (scanText triple [] [] s.position s.rest).faults fun f hf =>
    ((hScanned.faults f hf).resolve_left (by simp)).hasLine.1.before h.place
  unfold Scan.takeText
  dsimp only
  generalize scanText triple [] [] s.position s.rest = r at hScanned hFaults
  obtain ⟨hRecorded, hSame⟩ := hFaults
  generalize r.faults.foldl (fun s (f, span) => s.fault file f span) s = recorded
    at hRecorded hSame
  have hPlace : a.LeadsTo ⟨r.position, r.rest⟩ := h.place.trans hScanned.place
  have hOuter : ∀ mode ∈ if opening = true then recorded.modes else recorded.modes.tail,
      mode.IsHole := by
    rw [hSame]
    split
    next hOpening => exact hModes hOpening
    next => exact h.outer
  have hWhole : Token.Stands a
      ⟨if opening then .text r.text else .textEnd r.text, start.spanTo r.position⟩ := by
    cases opening with
    | true => exact ⟨nofun, hStart⟩
    | false => exact ⟨nofun, hStart⟩
  cases hEnding : r.ending with
  | closed =>
      refine ⟨?_, .of_holes hPlace hRecorded.report hOuter⟩
      rintro t (_ | ⟨_, ⟨⟩⟩)
      exact hWhole
  | unterminated =>
      refine ⟨?_, .of_holes hPlace (hRecorded.report.push h.place.hasPosition) hOuter⟩
      rintro t (_ | ⟨_, ⟨⟩⟩)
      exact hWhole
  | hole =>
      obtain ⟨hLine, hMark⟩ := hScanned.hole hEnding
      have hBefore : Token.Stands a
          ⟨if opening then .textStart r.text else .textPart r.text, start.spanTo r.position⟩ := by
        cases opening with
        | true => exact ⟨nofun, hStart⟩
        | false => exact ⟨nofun, hStart⟩
      refine ⟨?_, .of_holes hPlace hRecorded.report ?_⟩
      · rintro t (_ | ⟨_, ht⟩)
        · exact hBefore
        · split at ht
          · cases ht
          · rw [List.mem_singleton.1 ht]
            exact ⟨nofun, (hMark.before h.place).hasLine⟩
      · rintro mode (_ | ⟨_, hMode⟩)
        · exact trivial
        · exact hOuter mode hMode

/-- A brace changes what is read, and it is on the line of the scan. -/
theorem Sound.brace (h : s.Sound a) (hModes : ∀ mode ∈ s.modes, mode.IsHole)
    (hLine : a.HasLine s.position) (symbol : Symbol) : (s.brace symbol).2.Sound a := by
  unfold Scan.brace
  split
  next triple depth outer hEq =>
    rw [hEq] at hModes
    refine .of_holes h.place h.report ?_
    rintro mode (_ | ⟨_, hMode⟩)
    · exact trivial
    · exact hModes mode (List.mem_cons_of_mem _ hMode)
  next triple outer hEq =>
    rw [hEq] at hModes
    refine ⟨h.place, h.report, fun mode hMode => hModes mode (List.mem_cons_of_mem _ hMode), ?_⟩
    exact fun _ _ => .inr hLine
  next triple depth outer hEq =>
    rw [hEq] at hModes
    refine .of_holes h.place h.report ?_
    rintro mode (_ | ⟨_, hMode⟩)
    · exact trivial
    · exact hModes mode (List.mem_cons_of_mem _ hMode)
  next => exact h

theorem brace_ne_endOfInput (s : Scan) (symbol : Symbol) :
    (s.brace symbol).1 ≠ .endOfInput := by
  unfold Scan.brace
  split <;> nofun

/-- What comes of reading code: the end mark if the input is done, and otherwise tokens of the text
and a scan that has read on. -/
structure CodeSound (a : Place) (r : List Token × Scan × Bool) : Prop where
  tokens : r.2.2 = false → ∀ t ∈ r.1, t.Stands a
  scan : r.2.1.Sound a
  finished : r.2.2 = true → ∃ position, r.1 = [⟨.mark .endOfInput, .point position⟩] ∧
    a.HasPosition position

theorem codeSound_end (h : s.Sound a) {position : Position} (hPosition : a.HasPosition position) :
    CodeSound a ([⟨.mark .endOfInput, .point position⟩], s, true) :=
  ⟨nofun, h, fun _ => ⟨position, rfl, hPosition⟩⟩

theorem codeSound_token (h : s.Sound a) {t : Token} (hToken : t.Stands a) :
    CodeSound a ([t], s, false) := by
  refine ⟨fun _ => ?_, h, nofun⟩
  rintro t (_ | ⟨_, ⟨⟩⟩)
  exact hToken

/-- What a scan comes to behind a lexeme. -/
def behind (s : Scan) (c : Char) (cs : List Char) : Scan :=
  { s with
    rest := s.rest.drop (Lexeme.ofCode c cs).length
    position := if c == '\n' then s.position.after c
      else ⟨s.position.line, s.position.column + (Lexeme.ofCode c cs).length⟩ }

/-- Behind a lexeme the scan has still read on in the text, and stands on a line with a character
unless it has read a line end. -/
theorem Sound.behind (h : s.Sound a) (hModes : ∀ mode ∈ s.modes, mode.IsHole) {c : Char}
    {cs : List Char} (hRest : s.rest = c :: cs) : (s.behind c cs).Sound a ∧
      (c ≠ '\n' → a.HasLine (s.behind c cs).position) := by
  have hPlace : a.LeadsTo ⟨s.position, c :: cs⟩ := hRest ▸ h.place
  by_cases hc : c = '\n'
  · subst hc
    refine ⟨.of_holes (hPlace.trans ?_) h.report hModes, fun hne => (hne rfl).elim⟩
    rw [Scan.place, Scan.behind, hRest]
    exact .after '\n' cs s.position
  · have hStarts := Lexeme.startsCode_ofCode hc cs
    have hPosition : (s.behind c cs).position =
        ⟨s.position.line, s.position.column + (Lexeme.ofCode c cs).length⟩ := by
      simp [Scan.behind, hc]
    have hLeads := Place.LeadsTo.along hStarts.length_le hStarts.line s.position
    refine ⟨.of_holes (hPlace.trans ?_) h.report hModes, fun _ => ?_⟩
    · rw [Scan.place, hPosition]
      simpa only [Scan.behind, hRest] using hLeads
    · rw [hPosition]
      exact .along hPlace hStarts.length_le hStarts.line

/-- What a scan comes to behind a lexeme whose fault, if it has one, is recorded. -/
def noted (s : Scan) (file : SourceFile) (c : Char) (cs : List Char) : Scan :=
  match (Lexeme.ofCode c cs).fault with
  | some f => (s.behind c cs).fault file f (s.position.spanTo (s.behind c cs).position)
  | none => s.behind c cs

/-- All that a round of reading code can come to, behind what is skipped: tokens, the scan behind
them and whether the input is done, or a scan that another round goes on from. -/
inductive Round (file : SourceFile) (s : Scan) : (List Token × Scan × Bool) ⊕ Scan → Prop where
  | full (hFull : s.report.isFull = true) :
      Round file s (.inl ([⟨.mark .endOfInput, .point s.position⟩], s, true))
  | finished (hRest : s.rest = []) (hModes : s.modes = []) :
      Round file s (.inl ([⟨.mark .endOfInput, .point s.position⟩], s, true))
  | unfinished (hRest : s.rest = []) :
      Round file s (.inl ([⟨.mark .endOfInput, .point s.position⟩],
        s.fault file .unterminatedString (.point s.position), true))
  | string {cs : List Char} {triple : Bool} (hRest : s.rest = '"' :: cs)
      (hTriple : (cs.take 2 == ['"', '"']) = triple) :
      Round file s (.inl
        (((s.skip (if triple = true then 3 else 1)).takeText file triple true s.position).1,
          ((s.skip (if triple = true then 3 else 1)).takeText file triple true s.position).2,
          false))
  | faulty {c : Char} {cs : List Char} (hRoom : s.report.isFull = false)
      (hRest : s.rest = c :: cs) (hQuote : c ≠ '"') (hKind : (Lexeme.ofCode c cs).kind = none) :
      Round file s (.inr (s.noted file c cs))
  | symbol {c : Char} {cs : List Char} {symbol : Symbol} (hRest : s.rest = c :: cs)
      (hQuote : c ≠ '"') (hKind : (Lexeme.ofCode c cs).kind = some (.mark (.symbol symbol))) :
      Round file s (.inl
        ([⟨.mark ((s.noted file c cs).brace symbol).1,
          s.position.spanTo (s.behind c cs).position⟩],
          ((s.noted file c cs).brace symbol).2, false))
  | token {c : Char} {cs : List Char} {kind : TokenKind} (hRest : s.rest = c :: cs)
      (hQuote : c ≠ '"') (hKind : (Lexeme.ofCode c cs).kind = some kind)
      (hPlain : ∀ symbol, kind ≠ .mark (.symbol symbol)) :
      Round file s (.inl
        ([⟨kind, s.position.spanTo (s.behind c cs).position⟩], s.noted file c cs, false))

/-- Reading code is one round after the other. How many more there may be only matters to what
comes of a round that another one follows. -/
theorem exists_round (s : Scan) (file : SourceFile) : ∃ outcome,
    s.skipIgnored.Round file outcome ∧
      ∀ n, s.takeCode file (n + 1) = outcome.elim id fun next => next.takeCode file n := by
  simp only [takeCode]
  generalize s.skipIgnored = s'
  by_cases hFull : s'.report.isFull = true
  · simp only [if_pos hFull]
    exact ⟨_, .full hFull, fun _ => rfl⟩
  simp only [if_neg hFull]
  obtain ⟨rest, position, modes, report⟩ := s'
  cases rest with
  | nil =>
      cases modes with
      | nil => exact ⟨_, .finished rfl rfl, fun _ => rfl⟩
      | cons => exact ⟨_, .unfinished rfl, fun _ => rfl⟩
  | cons c cs =>
      by_cases hQuote : c = '"'
      · subst hQuote
        exact ⟨_, .string rfl rfl, fun _ => rfl⟩
      simp only [if_neg (mt eq_of_beq hQuote)]
      cases hKind : (Lexeme.ofCode c cs).kind with
      | none => exact ⟨_, .faulty (by simpa using hFull) rfl hQuote hKind, fun _ => rfl⟩
      | some kind =>
          by_cases hSymbol : ∃ symbol, kind = .mark (.symbol symbol)
          · obtain ⟨symbol, rfl⟩ := hSymbol
            exact ⟨_, .symbol rfl hQuote hKind, fun _ => rfl⟩
          · refine ⟨_, .token rfl hQuote hKind fun symbol hEq => hSymbol ⟨symbol, hEq⟩, fun _ => ?_⟩
            split
            next hNone => cases hNone
            next symbol hEq => exact (hSymbol ⟨symbol, Option.some.inj hEq⟩).elim
            next hEq =>
              obtain rfl := Option.some.inj hEq
              rfl

/-- Recording the fault of a lexeme, if it has one, keeps a scan sound, since the fault stands where
the lexeme does. -/
theorem Sound.noted (h : s.Sound a) (hModes : ∀ mode ∈ s.modes, mode.IsHole) (file : SourceFile)
    {c : Char} {cs : List Char} (hRest : s.rest = c :: cs) : (s.noted file c cs).Sound a := by
  have hNext := (h.behind hModes hRest).1
  have hHere : a.HasPosition s.position := h.place.hasPosition
  unfold Scan.noted
  split
  next f _ => exact hNext.fault file f hHere
  next => exact hNext

@[simp] theorem modes_noted (s : Scan) (file : SourceFile) (c : Char) (cs : List Char) :
    (s.noted file c cs).modes = s.modes := by
  unfold noted
  split <;> rfl

@[simp] theorem position_noted (s : Scan) (file : SourceFile) (c : Char) (cs : List Char) :
    (s.noted file c cs).position = (s.behind c cs).position := by
  unfold noted
  split <;> rfl

theorem Sound.takeCode (h : s.Sound a) (hModes : ∀ mode ∈ s.modes, mode.IsHole)
    (file : SourceFile) (fuel : Nat) : CodeSound a (s.takeCode file fuel) := by
  induction fuel generalizing s with
  | zero => exact codeSound_end h h.place.hasPosition
  | succ fuel ih =>
      obtain ⟨hSkipped, hSame⟩ := h.skipIgnored hModes
      obtain ⟨outcome, hRound, hTaken⟩ := s.exists_round file
      rw [hTaken]
      generalize s.skipIgnored = s' at hSkipped hSame hRound
      rw [← hSame] at hModes
      have hStart : ∀ {c cs}, s'.rest = c :: cs → a.HasLine s'.position := by
        intro c cs hRest
        have hChar : a.HasChar s'.position := ⟨c, cs, hRest ▸ hSkipped.place⟩
        exact hChar.hasLine
      cases hRound with
      | full => exact codeSound_end hSkipped hSkipped.place.hasPosition
      | finished => exact codeSound_end hSkipped hSkipped.place.hasPosition
      | unfinished =>
          exact codeSound_end (hSkipped.fault file _ hSkipped.place.hasPosition)
            hSkipped.place.hasPosition
      | @string cs triple hRest hTriple =>
          have hQuotes : a.LeadsTo (s'.skip (if triple = true then 3 else 1)).place := by
            refine hSkipped.place.trans ?_
            rw [Scan.place, Scan.place, Scan.skip, hRest]
            exact leadsTo_quotes s'.position fun hIs => eq_of_beq (hTriple.trans hIs)
          have hText := (Sound.of_holes hQuotes hSkipped.report hModes).takeText file triple true
            (fun _ => hModes) (hStart hRest)
          exact ⟨fun _ => hText.1, hText.2, nofun⟩
      | faulty _ hRest => exact ih (hSkipped.noted hModes file hRest) (by simpa using hModes)
      | @symbol c cs symbol hRest _ hKind =>
          have hNewline : c ≠ '\n' := by
            rintro rfl
            simp [Lexeme.ofCode] at hKind
          have hLine := (hSkipped.behind hModes hRest).2 hNewline
          refine codeSound_token (Sound.brace (hSkipped.noted hModes file hRest)
            (by simpa using hModes) (by simpa using hLine) symbol) ⟨?_, hStart hRest⟩
          exact fun hEnd => brace_ne_endOfInput _ symbol (TokenKind.mark.inj hEnd)
      | @token c cs kind hRest _ hKind =>
          refine codeSound_token (hSkipped.noted hModes file hRest) ⟨?_, hStart hRest⟩
          rintro rfl
          exact Lexeme.ofCode_kind c cs hKind

/-- All that a step of reading can come to: the text of a string goes on, or code is read, unless
the report is full. -/
inductive Step (file : SourceFile) (s : Scan) : List Token × Scan × Bool → Prop where
  | full (hFull : s.report.isFull = true) :
      Step file s ([⟨.mark .endOfInput, .point s.position⟩], s, true)
  | text {triple : Bool} {outer : List Mode} (hModes : s.modes = .text triple :: outer) :
      Step file s ((s.takeText file triple false s.position).1,
        (s.takeText file triple false s.position).2, false)
  | code (hModes : ∀ mode ∈ s.modes.head?, mode.IsHole) :
      Step file s (s.takeCode file (maxProblems + 1))

/-- Reading all tokens is one step after the other. -/
theorem exists_step (s : Scan) (file : SourceFile) : ∃ r, s.Step file r ∧ ∀ n done,
    s.takeAll file (n + 1) done =
      if r.2.2 then ((r.1.reverse ++ done).reverse, r.2.1.report)
      else r.2.1.takeAll file n (r.1.reverse ++ done) := by
  simp only [Scan.takeAll]
  by_cases hFull : s.report.isFull = true
  · simp only [if_pos hFull]
    exact ⟨_, .full hFull, fun _ _ => rfl⟩
  simp only [if_neg hFull]
  split
  next triple outer hModes => exact ⟨_, .text hModes, fun _ _ => rfl⟩
  next hModes =>
    refine ⟨_, .code fun mode hMode => ?_, fun _ _ => rfl⟩
    obtain ⟨outer, hList⟩ := List.head?_eq_some_iff.1 hMode
    cases mode with
    | text triple => exact (hModes triple outer hList).elim
    | hole => exact trivial

theorem Sound.step (h : s.Sound a) {file : SourceFile} {r : List Token × Scan × Bool}
    (hStep : s.Step file r) : CodeSound a r := by
  cases hStep with
  | full => exact codeSound_end h h.place.hasPosition
  | @text triple outer hModes =>
      have hLine : a.HasLine s.position :=
        (h.text (.text triple) (by rw [hModes]; rfl)).resolve_left id
      obtain ⟨hTokens, hNext⟩ := h.takeText file triple false (by simp) hLine
      exact ⟨fun _ => hTokens, hNext, nofun⟩
  | code hModes =>
      refine h.takeCode (fun mode hMode => ?_) file _
      cases hList : s.modes with
      | nil =>
          rw [hList] at hMode
          cases hMode
      | cons first outer =>
          rw [hList] at hMode
          rcases List.mem_cons.1 hMode with rfl | hOuter
          · exact hModes mode (by rw [hList]; rfl)
          · exact h.outer mode (by rw [hList]; exact hOuter)

/-- What comes of reading all tokens after some others: they stand in the text, the last one is the
end mark, and all problems stand in the text. -/
structure AllSound (a : Place) (done : List Token) (r : List Token × Report) : Prop where
  tokens : ∃ more position, r.1 = done.reverse ++ more ++ [⟨.mark .endOfInput, .point position⟩] ∧
    a.HasPosition position ∧ ∀ t ∈ more, t.Stands a
  report : ReportStands a r.2

/-- If tokens stand in the text then what is known of reading all tokens behind them is known before
them too. -/
theorem AllSound.before {done tokens : List Token} {r : List Token × Report}
    (h : AllSound a (tokens.reverse ++ done) r) (hTokens : ∀ t ∈ tokens, t.Stands a) :
    AllSound a done r := by
  obtain ⟨⟨more, position, hEq, hPosition, hMore⟩, hReport⟩ := h
  refine ⟨⟨tokens ++ more, position, ?_, hPosition, ?_⟩, hReport⟩
  · rw [hEq, List.reverse_append, List.reverse_reverse, List.append_assoc done.reverse]
  · intro t ht
    exact (List.mem_append.1 ht).elim (hTokens t) (hMore t)

/-- By induction on the bound of steps: every token that a scan takes stands in the source, and so
does every problem. -/
theorem Sound.takeAll (h : s.Sound a) (file : SourceFile) (fuel : Nat) (done : List Token) :
    AllSound a done (s.takeAll file fuel done) := by
  have hLast : ∀ {s : Scan} {done position}, ReportStands a s.report → a.HasPosition position →
      AllSound a done ((⟨.mark .endOfInput, .point position⟩ :: done).reverse, s.report) := by
    intro s done position hReport hPosition
    refine ⟨⟨[], position, ?_, hPosition, by simp⟩, hReport⟩
    rw [List.reverse_cons, List.append_nil]
  induction fuel generalizing s done with
  | zero => exact hLast h.report h.place.hasPosition
  | succ fuel ih =>
      obtain ⟨r, hStep, hTaken⟩ := s.exists_step file
      obtain ⟨hTokens, hNext, hFinished⟩ := h.step hStep
      rw [hTaken]
      split
      next hEnd =>
        obtain ⟨position, hEq, hPosition⟩ := hFinished hEnd
        rw [hEq]
        exact hLast hNext.report hPosition
      next hMore => exact (ih hNext _).before (hTokens (by simpa using hMore))

end Scan

end Script

end Metagen
