import Metagen.Proofs.Script.Spelling
import Mathlib.Data.List.Induction

/-! Scripts without faults are cut into slices, one per token, with nothing between them but blanks
and comments. Slice by slice, what is written and the strings and holes around it decide the token,
and the token starts where its slice does. -/

namespace Metagen.Script

open Text

/-- A token, what is skipped before it, what it is written as, and how that is read. -/
structure Piece where
  gap : List Char
  slice : List Char
  stance : Stance
  token : Token

/-- The characters from the end of the token before to the end of this one. -/
def Piece.written (piece : Piece) : List Char := piece.gap ++ piece.slice

/-- Spaces, tabs and carriage returns, and a comment, which runs to the end of its line. -/
def Skipped (gap rest : List Char) : Prop :=
  ∃ blanks comment, gap = blanks ++ comment ∧ (∀ c ∈ blanks, Scan.isGap c = true) ∧
    (comment = [] ∨ (∃ body, comment = '#' :: body) ∧ '\n' ∉ comment ∧
      ∀ c ∈ rest.head?, c = '\n')

theorem skipped_nil (rest : List Char) : Skipped [] rest := ⟨[], [], rfl, by simp, .inl rfl⟩

/-- What may stand anywhere in code: no mark of a hole, no text cut by holes, and not the end. -/
def TokenKind.IsPlain : TokenKind → Prop
  | .mark .holeStart | .mark .holeEnd | .mark .endOfInput => False
  | .textStart _ | .textPart _ | .textEnd _ => False
  | _ => True

def TokenKind.braces : TokenKind → List Symbol
  | .mark (.symbol .leftBrace) => [.leftBrace]
  | .mark (.symbol .rightBrace) => [.rightBrace]
  | _ => []

/-- What may come next. -/
inductive Next where
  /-- Whatever the strings and holes around the place allow. -/
  | inside (modes : List Mode)
  /-- The mark that opens a hole of a string inside of others. -/
  | opening (triple : Bool) (outer : List Mode)

/-- Code is read, not the text of a string. -/
def InCode (modes : List Mode) : Prop := ∀ mode ∈ modes.head?, mode.IsHole

/-- How a token changes what may come next. -/
inductive TurnsNext : Next → Stance → TokenKind → Next → Prop where
  | plain {modes : List Mode} {kind : TokenKind} (hCode : InCode modes) (hPlain : kind.IsPlain)
      (hBraces : modes = [] ∨ kind.braces = []) :
      TurnsNext (.inside modes) .code kind (.inside modes)
  | leftBrace {triple : Bool} {depth : Nat} {outer : List Mode} :
      TurnsNext (.inside (.hole triple depth :: outer)) .code (.mark (.symbol .leftBrace))
        (.inside (.hole triple (depth + 1) :: outer))
  | rightBrace {triple : Bool} {depth : Nat} {outer : List Mode} :
      TurnsNext (.inside (.hole triple (depth + 1) :: outer)) .code (.mark (.symbol .rightBrace))
        (.inside (.hole triple depth :: outer))
  | textStart {modes : List Mode} {triple : Bool} {value : String} (hCode : InCode modes) :
      TurnsNext (.inside modes) .code (.textStart value) (.opening triple modes)
  | holeStart {triple : Bool} {outer : List Mode} :
      TurnsNext (.opening triple outer) .edge (.mark .holeStart) (.inside (.hole triple 0 :: outer))
  | holeEnd {triple : Bool} {outer : List Mode} :
      TurnsNext (.inside (.hole triple 0 :: outer)) .edge (.mark .holeEnd)
        (.inside (.text triple :: outer))
  | textPart {triple : Bool} {outer : List Mode} {value : String} :
      TurnsNext (.inside (.text triple :: outer)) (.text triple) (.textPart value)
        (.opening triple outer)
  | textEnd {triple : Bool} {outer : List Mode} {value : String} :
      TurnsNext (.inside (.text triple :: outer)) (.text triple) (.textEnd value) (.inside outer)

/-- A place of a text between two tokens. -/
structure Spot where
  position : Position
  next : Next
  rest : List Char

/-- From a place on, a text is cut into pieces, the last one being the end mark. -/
inductive Cut : Spot → List Piece → Prop where
  | finish {p : Position} {gap : List Char} (hGap : Skipped gap []) :
      Cut ⟨p, .inside [], gap⟩
        [⟨gap, [], .code, ⟨.mark .endOfInput, .point (p.past gap)⟩⟩]
  | step {p : Position} {next next' : Next} {piece : Piece} {rest : List Char}
      {pieces : List Piece} (hGap : Skipped piece.gap (piece.slice ++ rest))
      (hSpelled : Spelled piece.stance piece.slice piece.token.kind)
      (hStart : piece.token.span.start = p.past piece.gap)
      (hTurns : TurnsNext next piece.stance piece.token.kind next')
      (hRest : Cut ⟨p.past piece.written, next', rest⟩ pieces) :
      Cut ⟨p, next, piece.written ++ rest⟩ (piece :: pieces)

/-- However the text is cut from the second place on, it is cut from the first one on with these
tokens before. -/
def Spot.CutsTo (a : Spot) (tokens : List Token) (b : Spot) : Prop :=
  ∀ pieces, Cut b pieces → ∃ before, before.map Piece.token = tokens ∧ Cut a (before ++ pieces)

/-- Slices that are cut one behind the other are cut from the first place to the last one. -/
theorem Spot.CutsTo.trans {a b c : Spot} {tokens tokens' : List Token} (h : a.CutsTo tokens b)
    (h' : b.CutsTo tokens' c) : a.CutsTo (tokens ++ tokens') c := by
  intro pieces hCut
  obtain ⟨later, hLater, hFrom⟩ := h' pieces hCut
  obtain ⟨before, hBefore, hAll⟩ := h _ hFrom
  refine ⟨before ++ later, ?_, ?_⟩
  · rw [List.map_append, hBefore, hLater]
  · rw [List.append_assoc]
    exact hAll

/-- One token leads on. -/
theorem Spot.cutsTo_token {p : Position} {next next' : Next} {gap slice rest : List Char}
    {stance : Stance} {token : Token} (hGap : Skipped gap (slice ++ rest))
    (hSpelled : Spelled stance slice token.kind) (hStart : token.span.start = p.past gap)
    (hTurns : TurnsNext next stance token.kind next') :
    Spot.CutsTo ⟨p, next, gap ++ (slice ++ rest)⟩ [token]
      ⟨p.past (gap ++ slice), next', rest⟩ := by
  intro pieces hCut
  refine ⟨[⟨gap, slice, stance, token⟩], rfl, ?_⟩
  rw [← List.append_assoc]
  exact @Cut.step p next next' ⟨gap, slice, stance, token⟩ rest pieces hGap hSpelled hStart hTurns
    hCut

/-- One token that nothing is skipped before leads on. -/
theorem Spot.cutsTo_slice {p stop : Position} {next next' : Next} {slice rest : List Char}
    {stance : Stance} {kind : TokenKind} (hSpelled : Spelled stance slice kind)
    (hTurns : TurnsNext next stance kind next') :
    Spot.CutsTo ⟨p, next, slice ++ rest⟩ [⟨kind, ⟨p, stop⟩⟩] ⟨p.past slice, next', rest⟩ :=
  cutsTo_token (skipped_nil _) hSpelled rfl hTurns

theorem spelled_holeStart : Spelled .edge ['$', '{'] (.mark .holeStart) := .inl ⟨rfl, rfl⟩

/-- The mark of a hole leads into it. -/
theorem Spot.cutsTo_hole (p stop : Position) (triple : Bool) (outer : List Mode)
    (rest : List Char) :
    Spot.CutsTo ⟨p, .opening triple outer, '$' :: '{' :: rest⟩ [⟨.mark .holeStart, ⟨p, stop⟩⟩]
      ⟨p.past ['$', '{'], .inside (.hole triple 0 :: outer), rest⟩ :=
  @cutsTo_slice p stop _ _ ['$', '{'] rest _ _ spelled_holeStart .holeStart

/-- The characters at which a text ends. -/
def TextEnd.mark (triple : Bool) : TextEnd → List Char
  | .closed => quotes triple
  | .hole => ['$', '{']
  | .unterminated => []

/-- From a place on, a text is scanned that is written like this, behind what has been read of
it. -/
structure TextScan.ReadsWritten (triple : Bool) (done : List Char) (p : Position) (cs : List Char)
    (r : TextScan) (body meant : List Char) : Prop where
  written : TextWritten triple body meant
  text : r.text = .ofList (done.reverse ++ meant)
  rest : cs = body ++ (r.ending.mark triple ++ r.rest)
  position : r.position = p.past (body ++ r.ending.mark triple)

/-- A plain character of a text stands for itself, and the rest is read behind it. -/
theorem TextScan.ReadsWritten.plain {triple : Bool} {done cs body meant : List Char} {p : Position}
    {c : Char} {r : TextScan} (h : r.ReadsWritten triple (c :: done) (p.after c) cs body meant)
    (hEscape : c ≠ '\\') (hGoesOn : ¬ EndsText triple (c :: cs)) :
    r.ReadsWritten triple done p (c :: cs) (c :: body) (c :: meant) where
  written := by
    refine .plain hEscape (fun hEnds => hGoesOn (hEnds.mono ?_)) h.written
    rw [h.rest, ← List.cons_append]
    exact List.prefix_append _ _
  text := by rw [h.text, List.reverse_cons, List.append_assoc, List.singleton_append]
  rest := by rw [List.cons_append, ← h.rest]
  position := h.position

/-- An escape of a text stands for its character, and the rest is read behind it. -/
theorem TextScan.ReadsWritten.escape {triple : Bool} {done cs body meant : List Char} {p : Position}
    {e c : Char} {r : TextScan}
    (h : r.ReadsWritten triple (c :: done) ((p.after '\\').after e) cs body meant)
    (hEscape : escape? e = some c) :
    r.ReadsWritten triple done p ('\\' :: e :: cs) ('\\' :: e :: body) (c :: meant) where
  written := .escape hEscape h.written
  text := by rw [h.text, List.reverse_cons, List.append_assoc, List.singleton_append]
  rest := by rw [List.cons_append, List.cons_append, ← h.rest]
  position := h.position

/-- Closing quotes are one quote, or three in a string between triple quotes. -/
theorem closing_eq {triple : Bool} {cs : List Char}
    (h : (!triple || cs.take 2 == ['"', '"']) = true) :
    '"' :: cs = quotes triple ++ ('"' :: cs).drop (quotes triple).length := by
  cases triple with
  | false => rfl
  | true =>
      have hTaken : cs.take 2 = ['"', '"'] := by simpa using h
      have hRest : cs = ['"', '"'] ++ cs.drop 2 := by
        rw [← hTaken, List.take_append_drop]
      rw [hRest]
      rfl

/-- A text goes on where the scan does not stop. -/
theorem not_endsText {triple : Bool} {c : Char} {cs : List Char}
    (hClose : ¬ (c == '"' && (!triple || cs.take 2 == ['"', '"'])) = true)
    (hLine : ¬ (c == '\n' && !triple) = true)
    (hHole : ¬ (c == '$' && cs.head? == some '{') = true) : ¬ EndsText triple (c :: cs) := by
  rintro (⟨rest, hQuotes⟩ | ⟨rest, hMark⟩ | ⟨rfl, rest, hEnd⟩)
  · cases triple with
    | false =>
        obtain ⟨rfl, -⟩ := List.cons.inj hQuotes
        exact hClose rfl
    | true =>
        obtain ⟨rfl, hRest⟩ := List.cons.inj hQuotes
        exact hClose (by rw [← hRest]; rfl)
  · obtain ⟨rfl, hRest⟩ := List.cons.inj hMark
    exact hHole (by rw [← hRest]; rfl)
  · obtain ⟨rfl, -⟩ := List.cons.inj hEnd
    exact hLine rfl

/-- The position behind quotes is as many columns further on, since quotes hold no line end. -/
theorem past_quotes (triple : Bool) (p : Position) :
    p.past (quotes triple) = ⟨p.line, p.column + (quotes triple).length⟩ := by
  refine Position.past_of_notMem ?_ p
  cases triple with
  | false => decide
  | true => decide

/-- A text without faults is the one that is written. -/
theorem readsWritten_scanText (triple : Bool) (done : List Char) (faults : List (LexFault × Span))
    (p : Position) (cs : List Char) : (scanText triple done faults p cs).faults = [] →
      faults = [] ∧
        ∃ body meant,
          (scanText triple done faults p cs).ReadsWritten triple done p cs body meant := by
  fun_induction scanText triple done faults p cs with
  | case1 done faults p =>
      intro h
      exact ⟨List.reverse_eq_nil_iff.1 h, [], [], .nil, by simp, rfl, rfl⟩
  | case2 done faults p c cs hClose count =>
      intro h
      obtain ⟨hQuote, hTriple⟩ := Bool.and_eq_true_iff.1 hClose
      obtain rfl := eq_of_beq hQuote
      have hCount : count = (quotes triple).length := by
        unfold count quotes
        split <;> rfl
      refine ⟨List.reverse_eq_nil_iff.1 h, [], [], .nil, by simp, ?_, ?_⟩
      · rw [hCount]
        exact closing_eq hTriple
      · rw [hCount]
        exact (past_quotes triple p).symm
  | case3 done faults p c cs =>
      intro h
      exact ⟨List.reverse_eq_nil_iff.1 h, [], [], .nil, by simp, rfl, rfl⟩
  | case4 done faults p c cs _ _ hHole =>
      intro h
      obtain ⟨hDollar, hBrace⟩ := Bool.and_eq_true_iff.1 hHole
      obtain rfl := eq_of_beq hDollar
      obtain ⟨more, rfl⟩ := List.head?_eq_some_iff.1 (eq_of_beq hBrace)
      exact ⟨List.reverse_eq_nil_iff.1 h, [], [], .nil, by simp, rfl, rfl⟩
  | case5 done faults p c _ _ fault =>
      intro h
      simp at h
  | case6 done faults p c _ hSlash e more next meant hEscape _ _ ih =>
      intro h
      obtain rfl := eq_of_beq hSlash
      obtain ⟨hNone, body, rest, hReads⟩ := ih h
      exact ⟨hNone, '\\' :: e :: body, meant :: rest, hReads.escape hEscape⟩
  | case7 done faults p c _ _ e more next _ shown others _ fault _ _ ih =>
      intro h
      exact (List.cons_ne_nil _ _ (ih h).1).elim
  | case8 done faults p c cs hClose hLine hHole hSlash ih =>
      intro h
      obtain ⟨hNone, body, rest, hReads⟩ := ih h
      exact ⟨hNone, c :: body, c :: rest,
        hReads.plain (fun hEq => hSlash (beq_iff_eq.2 hEq)) (not_endsText hClose hLine hHole)⟩

/-- Symbols are written as they are. -/
theorem CodeWritten.of_symbol {c : Char} {cs : List Char} {symbol : Symbol}
    (h : CodeWritten c cs (.mark (.symbol symbol))) : c :: cs = symbol.spelling.toList := by
  unfold CodeWritten at h
  split_ifs at h with hQuote hLine hDigit hWord
  · generalize c :: cs = slice at h
    cases h
  · cases h.2
  · generalize c :: cs = slice at h
    cases h
  · generalize c :: cs = slice at h
    cases h
  · obtain ⟨symbol', hSpelling, hSymbol⟩ := h
    cases hSymbol
    exact hSpelling.symm

/-- Code that starts no string is a token that may stand anywhere in code. -/
theorem CodeWritten.isPlain {c : Char} {cs : List Char} {kind : TokenKind}
    (h : CodeWritten c cs kind) (hQuote : c ≠ '"') : kind.IsPlain := by
  unfold CodeWritten at h
  rw [if_neg hQuote] at h
  split_ifs at h with hLine hDigit hWord
  · rw [h.2]
    exact trivial
  · generalize c :: cs = slice at h
    cases h <;> exact trivial
  · generalize c :: cs = slice at h
    cases h <;> exact trivial
  · obtain ⟨symbol, -, rfl⟩ := h
    exact trivial

theorem braces_eq_nil {kind : TokenKind} (h : ∀ symbol, kind ≠ .mark (.symbol symbol)) :
    kind.braces = [] := by
  unfold TokenKind.braces
  split
  next => exact (h _ rfl).elim
  next => exact (h _ rfl).elim
  next => rfl

namespace Scan

def spot (s : Scan) : Spot := ⟨s.position, .inside s.modes, s.rest⟩

/-- Faults of a text are counted. -/
theorem total_faults (s : Scan) (file : SourceFile) (faults : List (LexFault × Span)) :
    (faults.foldl (fun s (f, span) => s.fault file f span) s).report.total =
      s.report.total + faults.length := by
  induction faults generalizing s with
  | nil => rfl
  | cons first rest ih =>
      rw [List.foldl_cons, ih, List.length_cons]
      change s.report.total + 1 + rest.length = _
      omega

/-- The modes around a string. -/
def outerModes (s : Scan) (opening : Bool) : List Mode :=
  if opening then s.modes else s.modes.tail

/-- What comes of reading the text of a string on, the faults apart. -/
inductive TextTaken (s : Scan) (triple opening : Bool) (start : Position) :
    List Token × Scan → Prop where
  | closed {body meant rest : List Char} {stop : Position}
      (hText : TextWritten triple body meant) (hRest : s.rest = body ++ (quotes triple ++ rest)) :
      TextTaken s triple opening start
        ([⟨if opening then .text (.ofList meant) else .textEnd (.ofList meant), ⟨start, stop⟩⟩],
          ⟨rest, s.position.past (body ++ quotes triple), s.outerModes opening, s.report⟩)
  | hole {body meant rest : List Char} {stop stop' : Position}
      (hText : TextWritten triple body meant) (hRest : s.rest = body ++ ('$' :: '{' :: rest)) :
      TextTaken s triple opening start
        ([⟨if opening then .textStart (.ofList meant) else .textPart (.ofList meant),
            ⟨start, stop⟩⟩, ⟨.mark .holeStart, ⟨s.position.past body, stop'⟩⟩],
          ⟨rest, (s.position.past body).past ['$', '{'],
            .hole triple 0 :: s.outerModes opening, s.report⟩)

/-- A text that is read on without faults has none, and comes to its end or to a hole. -/
theorem scanned_of_total (s : Scan) (file : SourceFile) (triple opening : Bool)
    (start : Position) (h : (s.takeText file triple opening start).2.report.total = 0) :
    s.report.total = 0 ∧ (scanText triple [] [] s.position s.rest).faults = [] ∧
      (scanText triple [] [] s.position s.rest).ending ≠ .unterminated := by
  have hTotal := s.total_faults file (scanText triple [] [] s.position s.rest).faults
  unfold takeText at h
  dsimp only at h
  generalize scanText triple [] [] s.position s.rest = r at hTotal h ⊢
  cases hEnding : r.ending with
  | closed =>
      simp only [hEnding, hTotal] at h
      exact ⟨by omega, List.length_eq_zero_iff.1 (by omega), by decide⟩
  | hole =>
      simp only [hEnding, hTotal] at h
      exact ⟨by omega, List.length_eq_zero_iff.1 (by omega), by decide⟩
  | unterminated =>
      simp only [hEnding] at h
      cases h

/-- The text of a string that has no fault was written as it is meant, up to its end or to a
hole. -/
theorem textTaken_of_total (s : Scan) (file : SourceFile) (triple opening : Bool)
    (start : Position) (h : (s.takeText file triple opening start).2.report.total = 0) :
    s.report.total = 0 ∧
      s.TextTaken triple opening start (s.takeText file triple opening start) := by
  obtain ⟨hNone, hFaults, hEnded⟩ := s.scanned_of_total file triple opening start h
  obtain ⟨-, body, meant, hReads⟩ := readsWritten_scanText triple [] [] s.position s.rest hFaults
  unfold takeText
  dsimp only
  generalize scanText triple [] [] s.position s.rest = r at hFaults hEnded hReads ⊢
  refine ⟨hNone, ?_⟩
  cases hEnding : r.ending with
  | closed =>
      simp only [hFaults, List.foldl_nil, hReads.text, hReads.position, hEnding]
      exact .closed hReads.written (by rw [hReads.rest, hEnding]; rfl)
  | hole =>
      have hFull : s.report.isFull = false := by simp [Report.isFull, hNone, maxProblems]
      have hMark : (s.position.past body).past ['$', '{'] =
          ⟨(s.position.past body).line, (s.position.past body).column + 2⟩ :=
        Position.past_of_notMem (by decide) _
      simp only [hFaults, List.foldl_nil, hReads.text, hReads.position, hEnding, hFull,
        Position.past_append, TextEnd.mark, hMark, Nat.add_sub_cancel]
      rw [← hMark]
      exact .hole hReads.written (by rw [hReads.rest, hEnding]; rfl)
  | unterminated => exact (hEnded hEnding).elim

/-- The scan goes on to another one by these tokens. -/
def ContinuesBy (s : Scan) (tokens : List Token) (s' : Scan) : Prop :=
  s'.rest.length < s.rest.length ∧ s.spot.CutsTo tokens s'.spot

/-- Behind a hole, the text of a string goes on. -/
theorem TextTaken.resumed {s : Scan} {triple : Bool} {outer : List Mode} {r : List Token × Scan}
    (hModes : s.modes = .text triple :: outer) (h : s.TextTaken triple false s.position r) :
    s.ContinuesBy r.1 r.2 := by
  have hOuter : s.outerModes false = outer := by
    rw [outerModes, hModes]
    rfl
  cases h with
  | @closed body meant rest stop hText hRest =>
      have hWritten : Spelled (.text triple) (body ++ quotes triple) (.textEnd (.ofList meant)) :=
        TextResumed.closed hText
      refine ⟨?_, ?_⟩
      · have hQuotes : 0 < (quotes triple).length := by cases triple <;> decide
        simp only [hRest, List.length_append]
        omega
      · rw [spot, spot, hModes, hRest, hOuter, ← List.append_assoc body]
        exact Spot.cutsTo_slice hWritten .textEnd
  | @hole body meant rest stop stop' hText hRest =>
      have hWritten : Spelled (.text triple) body (.textPart (.ofList meant)) :=
        TextResumed.opened hText
      refine ⟨?_, ?_⟩
      · simp only [hRest, List.length_append, List.length_cons]
        omega
      · rw [spot, spot, hModes, hRest, hOuter]
        exact (Spot.cutsTo_slice hWritten .textPart).trans
          (Spot.cutsTo_hole _ _ triple outer rest)

/-- What is written as a string is spelled in code. -/
theorem spelled_string {cs : List Char} {kind : TokenKind} (h : StringWritten cs kind) :
    Spelled .code cs kind := by
  have hQuote : ∃ more, cs = '"' :: more := by
    cases h with
    | @closed triple => cases triple <;> exact ⟨_, rfl⟩
    | @opened triple => cases triple <;> exact ⟨_, rfl⟩
  obtain ⟨more, rfl⟩ := hQuote
  simpa [Spelled, CodeWritten] using h

/-- In code, a string follows what is skipped before it. -/
theorem TextTaken.started {s s' : Scan} {triple : Bool} {gap : List Char}
    {r : List Token × Scan} (h : s'.TextTaken triple true (s.position.past gap) r)
    (hCode : InCode s.modes) (hGap : Skipped gap (quotes triple ++ s'.rest))
    (hRest : s.rest = gap ++ (quotes triple ++ s'.rest))
    (hPosition : s'.position = s.position.past (gap ++ quotes triple))
    (hModes : s'.modes = s.modes) : s.ContinuesBy r.1 r.2 := by
  have hOuter : s'.outerModes true = s.modes := hModes
  cases h with
  | @closed body meant rest stop hText hBody =>
      have hWritten : Spelled .code (quotes triple ++ (body ++ quotes triple))
          (.text (.ofList meant)) := spelled_string (.closed hText)
      rw [hBody, ← List.append_assoc body, ← List.append_assoc (quotes triple)] at hGap hRest
      refine ⟨?_, ?_⟩
      · have hQuotes : 0 < (quotes triple).length := by cases triple <;> decide
        simp only [hRest, List.length_append]
        omega
      · rw [spot, spot, hRest, hOuter, hPosition, ← Position.past_append, List.append_assoc gap]
        exact Spot.cutsTo_token hGap hWritten rfl (.plain hCode trivial (.inr rfl))
  | @hole body meant rest stop stop' hText hBody =>
      have hWritten : Spelled .code (quotes triple ++ body) (.textStart (.ofList meant)) :=
        spelled_string (.opened hText)
      rw [hBody, ← List.append_assoc (quotes triple)] at hGap hRest
      refine ⟨?_, ?_⟩
      · simp only [hRest, List.length_append, List.length_cons]
        omega
      · rw [spot, spot, hRest, hOuter, hPosition, ← Position.past_append, List.append_assoc gap]
        exact (Spot.cutsTo_token hGap hWritten rfl (.textStart hCode)).trans
          (Spot.cutsTo_hole _ _ triple _ rest)

/-- Skipping the characters that pass a test stops at the first one that fails it. -/
theorem skip_takeWhile (s : Scan) {p : Char → Bool} (hp : p '\n' = false) :
    s.skip (s.rest.takeWhile p).length =
      ⟨s.rest.dropWhile p, s.position.past (s.rest.takeWhile p), s.modes, s.report⟩ := by
  have hDropped : s.rest.drop (s.rest.takeWhile p).length = s.rest.dropWhile p := by
    calc s.rest.drop (s.rest.takeWhile p).length
        = (s.rest.takeWhile p ++ s.rest.dropWhile p).drop (s.rest.takeWhile p).length := by
          rw [List.takeWhile_append_dropWhile]
      _ = s.rest.dropWhile p := List.drop_left
  rw [skip, hDropped, Position.past_of_notMem (Lexeme.notMem_takeWhile hp s.rest)]

/-- Nothing but blanks and a comment is between two scans. -/
structure Skips (s : Scan) (gap : List Char) (s' : Scan) : Prop where
  skipped : Skipped gap s'.rest
  rest : s.rest = gap ++ s'.rest
  position : s'.position = s.position.past gap
  modes : s'.modes = s.modes
  report : s'.report = s.report

/-- What is passed between two tokens is a gap of blanks and comments. -/
theorem exists_skips (s : Scan) : ∃ gap, s.Skips gap s.skipIgnored := by
  have hBlanks : ∀ c ∈ s.rest.takeWhile isGap, isGap c = true :=
    fun c hc => List.mem_takeWhile_imp hc
  have hGaps := s.skip_takeWhile (p := isGap) (by decide)
  unfold skipIgnored
  dsimp only
  rw [hGaps]
  dsimp only
  split
  next body hComment =>
    rw [skip_takeWhile _ (p := (· != '\n')) (by decide)]
    refine ⟨s.rest.takeWhile isGap ++ (s.rest.dropWhile isGap).takeWhile (· != '\n'),
      ⟨_, _, rfl, hBlanks, .inr ⟨?_, Lexeme.notMem_takeWhile (by decide) _, ?_⟩⟩, ?_, ?_, rfl, rfl⟩
    · rw [hComment, List.takeWhile_cons_of_pos (by decide)]
      exact ⟨_, rfl⟩
    · intro c hc
      have hStop := List.head?_dropWhile_not (· != '\n') (s.rest.dropWhile isGap)
      rw [hc] at hStop
      simpa using hStop
    · rw [List.append_assoc, List.takeWhile_append_dropWhile, List.takeWhile_append_dropWhile]
    · exact (Position.past_append _ _ _).symm
  next =>
    refine ⟨s.rest.takeWhile isGap, ⟨_, [], (List.append_nil _).symm, hBlanks, .inl rfl⟩,
      List.takeWhile_append_dropWhile.symm, rfl, rfl, rfl⟩

/-- Inside a hole, braces count; the one that closes the hole is its mark. -/
theorem turnsNext_brace (s : Scan) {c : Char} {cs : List Char} {symbol : Symbol}
    (hCode : InCode s.modes) (hWritten : CodeWritten c cs (.mark (.symbol symbol))) :
    ∃ stance, Spelled stance (c :: cs) (.mark (s.brace symbol).1) ∧
      TurnsNext (.inside s.modes) stance (.mark (s.brace symbol).1)
        (.inside (s.brace symbol).2.modes) ∧
      (s.brace symbol).2 = { s with modes := (s.brace symbol).2.modes } := by
  unfold brace
  split
  next triple depth outer hModes =>
    rw [hModes]
    exact ⟨.code, hWritten, .leftBrace, rfl⟩
  next triple outer hModes =>
    rw [hModes]
    exact ⟨.edge, .inr ⟨hWritten.of_symbol, rfl⟩, .holeEnd, rfl⟩
  next triple depth outer hModes =>
    rw [hModes]
    exact ⟨.code, hWritten, .rightBrace, rfl⟩
  next hLeft hOuter hInner =>
    refine ⟨.code, hWritten, .plain hCode trivial ?_, rfl⟩
    cases hModes : s.modes with
    | nil => exact .inl rfl
    | cons mode outer =>
        rw [hModes] at hCode
        cases mode with
        | text triple => exact (hCode (.text triple) rfl).elim
        | hole triple depth =>
            refine .inr ?_
            unfold TokenKind.braces
            split
            next hSymbol =>
              cases hSymbol
              exact (hLeft triple depth outer rfl hModes).elim
            next hSymbol =>
              cases hSymbol
              cases depth with
              | zero => exact (hOuter triple outer rfl hModes).elim
              | succ depth => exact (hInner triple depth outer rfl hModes).elim
            next => rfl

/-- Behind a lexeme, the scan has read it. -/
theorem behind_eq (s : Scan) {c : Char} {cs : List Char} (hRest : s.rest = c :: cs) :
    s.behind c cs = ⟨(c :: cs).drop (Lexeme.ofCode c cs).length,
      s.position.past ((c :: cs).take (Lexeme.ofCode c cs).length), s.modes, s.report⟩ := by
  have hPosition : (s.behind c cs).position =
      s.position.past ((c :: cs).take (Lexeme.ofCode c cs).length) := by
    unfold behind
    by_cases hLine : c = '\n'
    · subst hLine
      rfl
    · have hStarts := Lexeme.startsCode_ofCode hLine cs
      rw [Position.past_of_notMem hStarts.line, List.length_take,
        Nat.min_eq_left hStarts.length_le]
      simp [hLine]
  rw [← hPosition, ← hRest]
  rfl

/-- What comes of reading code, the faults apart. -/
inductive CodeTaken (s : Scan) : List Token × Scan × Bool → Prop where
  | finished {s' : Scan} (hModes : s.modes = []) (hGap : Skipped s.rest []) :
      CodeTaken s
        ([⟨.mark .endOfInput, .point (s.position.past s.rest)⟩], s', true)
  | token {tokens : List Token} {s' : Scan} (h : s.ContinuesBy tokens s') :
      CodeTaken s (tokens, s', false)

theorem report_brace (s : Scan) (symbol : Symbol) : (s.brace symbol).2.report = s.report := by
  unfold brace
  split <;> rfl

/-- One lexeme leads on. -/
theorem continuesBy_lexeme {s s' : Scan} {gap slice : List Char} {stance : Stance} {token : Token}
    (hGap : Skipped gap (slice ++ s'.rest)) (hRest : s.rest = gap ++ (slice ++ s'.rest))
    (hSome : slice ≠ []) (hSpelled : Spelled stance slice token.kind)
    (hStart : token.span.start = s.position.past gap)
    (hTurns : TurnsNext (.inside s.modes) stance token.kind (.inside s'.modes))
    (hPosition : s'.position = s.position.past (gap ++ slice)) : s.ContinuesBy [token] s' := by
  refine ⟨?_, ?_⟩
  · have hLength := List.length_pos_of_ne_nil hSome
    simp only [hRest, List.length_append]
    omega
  · rw [spot, spot, hRest, hPosition]
    exact Spot.cutsTo_token hGap hSpelled hStart hTurns

/-- The quotes that code starts with are passed over. -/
theorem skip_quotes {s : Scan} {cs : List Char} {triple : Bool} (hRest : s.rest = '"' :: cs)
    (hTriple : (cs.take 2 == ['"', '"']) = triple) :
    s.skip (if triple = true then 3 else 1) = ⟨s.rest.drop (quotes triple).length,
      s.position.past (quotes triple), s.modes, s.report⟩ ∧
      s.rest = quotes triple ++ s.rest.drop (quotes triple).length := by
  have hCount : (if triple = true then 3 else 1) = (quotes triple).length := by
    cases triple <;> rfl
  refine ⟨?_, ?_⟩
  · rw [hCount, past_quotes]
    rfl
  · rw [hRest]
    refine closing_eq ?_
    rw [hTriple]
    cases triple <;> rfl

/-- A string that code starts with leads on. -/
theorem Skips.string {s s' : Scan} {gap cs : List Char} (h : s.Skips gap s')
    (hCode : InCode s.modes) (hRest : s'.rest = '"' :: cs) (file : SourceFile) (triple : Bool)
    (hTriple : (cs.take 2 == ['"', '"']) = triple)
    (hNone : ((s'.skip (if triple = true then 3 else 1)).takeText file triple true
      s'.position).2.report.total = 0) :
    s.report.total = 0 ∧ s.ContinuesBy
      ((s'.skip (if triple = true then 3 else 1)).takeText file triple true s'.position).1
      ((s'.skip (if triple = true then 3 else 1)).takeText file triple true s'.position).2 := by
  obtain ⟨hSkip, hQuotes⟩ := skip_quotes hRest hTriple
  obtain ⟨hClean, hTaken⟩ := textTaken_of_total _ file triple true _ hNone
  refine ⟨h.report ▸ hClean, ?_⟩
  have hGap := h.skipped
  have hAll := h.rest
  rw [hQuotes] at hGap hAll
  rw [hSkip, h.position, ← Position.past_append] at hTaken ⊢
  exact hTaken.started hCode hGap hAll rfl h.modes

/-- Any other lexeme that code starts with leads on, as itself or as the end of a hole. -/
theorem Skips.lexeme {s s' : Scan} {gap cs : List Char} {c : Char} (h : s.Skips gap s')
    (hCode : InCode s.modes) (hRest : s'.rest = c :: cs) (hQuote : c ≠ '"')
    (hFault : (Lexeme.ofCode c cs).fault = none) :
    ∃ kind, (Lexeme.ofCode c cs).kind = some kind ∧
      ((∀ symbol, kind ≠ .mark (.symbol symbol)) → ∀ stop,
        s.ContinuesBy [⟨kind, ⟨s'.position, stop⟩⟩] (s'.behind c cs)) ∧
      ∀ symbol, kind = .mark (.symbol symbol) → ∀ stop,
        s.ContinuesBy [⟨.mark ((s'.behind c cs).brace symbol).1, ⟨s'.position, stop⟩⟩]
          ((s'.behind c cs).brace symbol).2 := by
  obtain ⟨hPos, kind, hKind, hWritten⟩ := Lexeme.takesWritten_ofCode hQuote cs hFault
  obtain ⟨n, hLength⟩ := Nat.exists_eq_add_of_lt hPos
  have hSlice : (c :: cs).take (Lexeme.ofCode c cs).length = c :: cs.take n := by
    rw [hLength, Nat.zero_add, List.take_succ_cons]
  have hParts : s'.rest = (c :: cs.take n) ++ (c :: cs).drop (Lexeme.ofCode c cs).length := by
    rw [hRest, ← hSlice, List.take_append_drop]
  have hGap := h.skipped
  have hAll := h.rest
  rw [hParts] at hGap hAll
  rw [hSlice] at hWritten
  rw [s'.behind_eq hRest, hSlice, h.position, ← Position.past_append]
  refine ⟨kind, hKind, fun hOther stop => ?_, ?_⟩
  · have hPlain : TurnsNext (.inside s.modes) .code kind (.inside s'.modes) := by
      rw [h.modes]
      exact .plain hCode (hWritten.isPlain hQuote) (.inr (braces_eq_nil hOther))
    exact continuesBy_lexeme hGap hAll (List.cons_ne_nil _ _) hWritten rfl hPlain rfl
  · rintro symbol rfl stop
    obtain ⟨stance, hSpelled, hTurns, hSame⟩ := turnsNext_brace
      ⟨(c :: cs).drop (Lexeme.ofCode c cs).length, s.position.past (gap ++ c :: cs.take n),
        s'.modes, s'.report⟩ (h.modes ▸ hCode) hWritten
    rw [hSame]
    exact continuesBy_lexeme hGap hAll (List.cons_ne_nil _ _) hSpelled rfl (h.modes ▸ hTurns) rfl

/-- At the end of the input nothing but what is skipped is left. -/
theorem Skips.finished {s s' : Scan} {gap : List Char} (h : s.Skips gap s') (hEnd : s'.rest = [])
    (hModes : s'.modes = []) :
    s.CodeTaken ([⟨.mark .endOfInput, .point s'.position⟩], s', true) := by
  have hRest := h.rest
  have hGap := h.skipped
  rw [hEnd, List.append_nil] at hRest
  rw [hEnd, ← hRest] at hGap
  rw [h.position, ← hRest]
  exact .finished (h.modes ▸ hModes) hGap

/-- Reading code without faults from a scan that has none; one round is enough then. -/
def ReadsCode (s : Scan) (fuel : Nat) (r : List Token × Scan × Bool) : Prop :=
  r.2.1.report.total = 0 → s.report.total = 0 ∧ (0 < fuel → s.CodeTaken r)

/-- Where no fault is counted, the lexeme has none. -/
theorem noted_of_total {s : Scan} {file : SourceFile} {c : Char} {cs : List Char}
    (h : (s.noted file c cs).report.total = 0) : (Lexeme.ofCode c cs).fault = none ∧
      s.noted file c cs = s.behind c cs ∧ s.report.total = 0 := by
  unfold noted at h ⊢
  cases hFault : (Lexeme.ofCode c cs).fault with
  | some f =>
      rw [hFault] at h
      cases h
  | none =>
      rw [hFault] at h
      exact ⟨rfl, rfl, h⟩

/-- By induction on the bound of rounds: reading code without faults cuts it into pieces. -/
theorem readsCode_takeCode (file : SourceFile) (fuel : Nat) {s : Scan} (hCode : InCode s.modes) :
    s.ReadsCode fuel (s.takeCode file fuel) := by
  -- Without rounds nothing is read, but it still holds that no fault goes uncounted.
  induction fuel generalizing s with
  | zero => exact fun hNone => ⟨hNone, fun hSome => (Nat.lt_irrefl 0 hSome).elim⟩
  | succ fuel ih =>
      obtain ⟨gap, hSkips⟩ := s.exists_skips
      obtain ⟨outcome, hRound, hTaken⟩ := s.exists_round file
      rw [hTaken]
      generalize s.skipIgnored = s' at hSkips hRound
      intro hNone
      cases hRound with
      | full hFull =>
          rw [Report.isFull, show s'.report.total = 0 from hNone] at hFull
          cases hFull
      | finished hEnd hModes =>
          exact ⟨hSkips.report ▸ hNone, fun _ => hSkips.finished hEnd hModes⟩
      | unfinished => cases hNone
      | string hRest hTriple =>
          obtain ⟨hClean, hText⟩ := hSkips.string hCode hRest file _ hTriple hNone
          exact ⟨hClean, fun _ => .token hText⟩
      | faulty _ hRest hQuote hKind =>
          -- The fault is counted, and no later round takes it back.
          have hClean := (ih (by simpa [hSkips.modes] using hCode) hNone).1
          obtain ⟨kind, hSome, -⟩ := hSkips.lexeme hCode hRest hQuote (noted_of_total hClean).1
          cases hKind.symm.trans hSome
      | symbol hRest hQuote hKind =>
          dsimp only [Sum.elim_inl, id] at hNone ⊢
          rw [report_brace] at hNone
          obtain ⟨hFault, hSame, hClean⟩ := noted_of_total hNone
          obtain ⟨kind, hSome, -, hSymbol⟩ := hSkips.lexeme hCode hRest hQuote hFault
          obtain rfl := Option.some.inj (hKind.symm.trans hSome)
          rw [hSame]
          exact ⟨hSkips.report ▸ hClean, fun _ => .token (hSymbol _ rfl _)⟩
      | token hRest hQuote hKind hPlain =>
          obtain ⟨hFault, hSame, hClean⟩ := noted_of_total hNone
          obtain ⟨kind, hSome, hOther, -⟩ := hSkips.lexeme hCode hRest hQuote hFault
          obtain rfl := Option.some.inj (hKind.symm.trans hSome)
          dsimp only [Sum.elim_inl, id]
          rw [hSame]
          exact ⟨hSkips.report ▸ hClean, fun _ => .token (hOther hPlain _)⟩

/-- Reading all tokens without faults cuts the text into pieces, one for each, if there are rounds
enough. -/
def ReadsAll (s : Scan) (fuel : Nat) (done : List Token) (r : List Token × Report) : Prop :=
  r.2.total = 0 → s.report.total = 0 ∧ (s.rest.length < fuel →
    ∃ pieces, Cut s.spot pieces ∧ r.1 = done.reverse ++ pieces.map Piece.token)

/-- Tokens that were cut before come in front of those that are cut behind them. -/
theorem ReadsAll.before {s s' : Scan} {fuel : Nat} {done tokens : List Token}
    {r : List Token × Report} (h : s'.ReadsAll fuel (tokens.reverse ++ done) r)
    (hBefore : s'.report.total = 0 → s.report.total = 0 ∧ s.ContinuesBy tokens s') :
    s.ReadsAll (fuel + 1) done r := by
  intro hNone
  obtain ⟨hClean, hLater⟩ := h hNone
  obtain ⟨hNone, hShorter, hReaches⟩ := hBefore hClean
  refine ⟨hNone, fun hFuel => ?_⟩
  obtain ⟨later, hCut, hTokens⟩ := hLater (by omega)
  obtain ⟨before, hFirst, hAll⟩ := hReaches later hCut
  refine ⟨before ++ later, hAll, ?_⟩
  rw [hTokens, List.map_append, hFirst, List.reverse_append, List.reverse_reverse,
    List.append_assoc]

/-- A step without faults has taken code, or the text of a string, or has come to the end. -/
theorem codeTaken_step {s : Scan} {file : SourceFile} {r : List Token × Scan × Bool}
    (hStep : s.Step file r) (hNone : r.2.1.report.total = 0) :
    s.report.total = 0 ∧ s.CodeTaken r := by
  cases hStep with
  | full hFull =>
      rw [Report.isFull, show s.report.total = 0 from hNone] at hFull
      cases hFull
  | text hModes =>
      obtain ⟨hClean, hTaken⟩ := s.textTaken_of_total file _ false s.position hNone
      exact ⟨hClean, .token (hTaken.resumed hModes)⟩
  | code hModes =>
      obtain ⟨hClean, hTaken⟩ := readsCode_takeCode file (maxProblems + 1) hModes hNone
      exact ⟨hClean, hTaken (Nat.succ_pos _)⟩

/-- By induction on the bound of steps: a scan without faults cuts all characters into slices and
gaps. -/
theorem readsAll_takeAll (file : SourceFile) (fuel : Nat) (done : List Token) (s : Scan) :
    s.ReadsAll fuel done (s.takeAll file fuel done) := by
  induction fuel generalizing s done with
  | zero => exact fun hNone => ⟨hNone, fun hFuel => (Nat.not_lt_zero _ hFuel).elim⟩
  | succ fuel ih =>
      obtain ⟨r, hStep, hTaken⟩ := s.exists_step file
      rw [hTaken]
      split
      next hEnd =>
        intro hNone
        obtain ⟨hClean, hCode⟩ := codeTaken_step hStep hNone
        refine ⟨hClean, fun _ => ?_⟩
        cases hCode with
        | finished hNoModes hGap =>
            refine ⟨[⟨s.rest, [], .code,
              ⟨.mark .endOfInput, .point (s.position.past s.rest)⟩⟩], ?_, ?_⟩
            · rw [spot, hNoModes]
              exact .finish hGap
            · simp
        | token => cases hEnd
      next hMore =>
        refine (ih _ _).before fun hNone => ?_
        obtain ⟨hClean, hCode⟩ := codeTaken_step hStep hNone
        refine ⟨hClean, ?_⟩
        cases hCode with
        | finished => exact (hMore rfl).elim
        | token hContinues => exact hContinues

end Scan

/-- A script without faults is cut into pieces from its start on. -/
theorem exists_cut (file : SourceFile) (h : (tokens file).2.hasProblems = false) :
    ∃ pieces, Cut ⟨.origin, .inside [], file.text.toList⟩ pieces ∧
      (tokens file).1 = pieces.map Piece.token := by
  have hNone : (tokens file).2.total = 0 := by
    simpa [Report.hasProblems] using h
  obtain ⟨-, hAll⟩ := Scan.readsAll_takeAll file _ _ _ hNone
  exact hAll (by dsimp only; omega)

/-- Line and column behind the characters that a text starts with, both counted from one. -/
def behindAll (cs : List Char) : Position :=
  ⟨cs.count '\n' + 1, (cs.reverse.takeWhile (· != '\n')).length + 1⟩

/-- The position behind some characters counts their line ends, and the characters behind the last
one. -/
theorem past_origin (cs : List Char) : Position.origin.past cs = behindAll cs := by
  induction cs using List.reverseRecOn with
  | nil => rfl
  | append_singleton cs c ih =>
      rw [Position.past_append, ih]
      change (behindAll cs).after c = _
      by_cases hLine : c = '\n'
      · subst hLine
        simp [Position.after, behindAll]
      · simp [Position.after, behindAll, hLine]

/-- The pieces make up the text and have the tokens. What each is written as decides its token, and
where it is written is where the token starts. -/
structure Slicing (text : List Char) (tokens : List Token) (pieces : List Piece) : Prop where
  tokens : tokens = pieces.map Piece.token
  text : text = pieces.flatMap Piece.written
  decided : ∀ piece ∈ pieces, ∀ kind,
    Spelled piece.stance piece.slice kind ↔ kind = piece.token.kind
  skipped : ∀ before piece after, pieces = before ++ piece :: after →
    Skipped piece.gap (piece.slice ++ after.flatMap Piece.written)
  starts : ∀ before piece after, pieces = before ++ piece :: after →
    piece.token.span.start = behindAll (before.flatMap Piece.written ++ piece.gap)

namespace Cut

variable {a : Spot} {pieces : List Piece}

theorem flatMap_written (h : Cut a pieces) : a.rest = pieces.flatMap Piece.written := by
  induction h with
  | finish => simp [Piece.written]
  | step _ _ _ _ _ ih => rw [List.flatMap_cons, ← ih]

/-- Each slice of a cut is spelled as its token says, in the stance in which it was read. -/
theorem spelled (h : Cut a pieces) :
    ∀ piece ∈ pieces, Spelled piece.stance piece.slice piece.token.kind := by
  induction h with
  | finish =>
      intro piece hPiece
      rw [List.mem_singleton.1 hPiece]
      exact rfl
  | step _ hSpelled _ _ _ ih =>
      intro piece hPiece
      rcases List.mem_cons.1 hPiece with rfl | hLater
      · exact hSpelled
      · exact ih piece hLater

/-- Wherever the pieces are parted, the text goes on being cut. -/
theorem drop {before : List Piece} (h : Cut a (before ++ pieces)) (hSome : pieces ≠ []) :
    ∃ next, Cut ⟨a.position.past (before.flatMap Piece.written), next,
      pieces.flatMap Piece.written⟩ pieces := by
  induction before generalizing a with
  | nil =>
      rw [List.nil_append] at h
      exact ⟨a.next, h.flatMap_written ▸ h⟩
  | cons first before ih =>
      generalize hAll : first :: before ++ pieces = all at h
      cases h with
      | finish =>
          obtain ⟨-, hNone⟩ := List.append_eq_nil_iff.1 (List.cons.inj hAll).2
          exact (hSome hNone).elim
      | step _ _ _ _ hRest =>
          obtain ⟨rfl, rfl⟩ := List.cons.inj hAll
          rw [List.flatMap_cons, Position.past_append]
          exact ih hRest

/-- The first piece follows what is skipped before it. -/
theorem head {piece : Piece} (h : Cut a (piece :: pieces)) :
    Skipped piece.gap (piece.slice ++ pieces.flatMap Piece.written) ∧
      piece.token.span.start = a.position.past piece.gap := by
  cases h with
  | finish hGap => exact ⟨hGap, rfl⟩
  | step hGap _ hStart _ hRest => exact ⟨hRest.flatMap_written ▸ hGap, hStart⟩

/-- A cut of a whole text slices it: the slices and gaps make up the text, and each starts at its
token's place. -/
theorem slicing {text : List Char} (h : Cut ⟨.origin, .inside [], text⟩ pieces) :
    Slicing text (pieces.map Piece.token) pieces where
  tokens := rfl
  text := h.flatMap_written
  decided piece hPiece kind := by
    have hSpelled := h.spelled piece hPiece
    refine ⟨fun hKind => hKind.unique hSpelled, ?_⟩
    rintro rfl
    exact hSpelled
  skipped before piece after hParts := by
    subst hParts
    obtain ⟨next, hCut⟩ := h.drop (List.cons_ne_nil piece after)
    exact hCut.head.1
  starts before piece after hParts := by
    subst hParts
    obtain ⟨next, hCut⟩ := h.drop (List.cons_ne_nil piece after)
    rw [hCut.head.2, ← Position.past_append, past_origin]

end Cut

/-- A script without faults is the concatenation of what its tokens are written as and of what is
skipped between them. What is written decides the tokens, and tells where they start. -/
theorem exists_slicing (file : SourceFile) (h : (tokens file).2.hasProblems = false) :
    ∃ pieces, Slicing file.text.toList (tokens file).1 pieces := by
  obtain ⟨pieces, hCut, hTokens⟩ := exists_cut file h
  exact ⟨pieces, hTokens ▸ hCut.slicing⟩

/-- A string with a hole and an escape, in a call with a comment behind it. -/
def greeting : SourceFile := .ofText "greeting" "f(\"é$\x7bn\x7d\\n\") # x"

theorem exists_slicing_greeting :
    (tokens greeting).2.hasProblems = false ∧
      ∃ pieces, Slicing greeting.text.toList (tokens greeting).1 pieces := by
  have hClean : (tokens greeting).2.hasProblems = false := by decide +kernel
  exact ⟨hClean, exists_slicing greeting hClean⟩

end Metagen.Script
