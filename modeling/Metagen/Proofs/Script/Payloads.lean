import Metagen.Proofs.Script.Slices
import Metagen.Proofs.Source.Report

/-! What tokens and faults repeat of the text that they are found in. A name is written as it is,
and the text of a string is read character by character, escapes being decoded. A fault quotes the
character that it is about. The exception is a backslash before a character that makes no escape and
is not ASCII: there the bytes of the character are taken apart, in the text as in the fault. -/

namespace Metagen

namespace Script

/-- Characters of a string, and the text they are read as. -/
inductive TextRead : List Char → List Char → Prop where
  | nil : TextRead [] []
  /-- A backslash at the end of the input. -/
  | unfinished : TextRead ['\\'] []
  | plain {c : Char} {written meant : List Char} (hEscape : c ≠ '\\')
      (rest : TextRead written meant) : TextRead (c :: written) (c :: meant)
  | escape {e c : Char} {written meant : List Char} (hEscape : escape? e = some c)
      (rest : TextRead written meant) : TextRead ('\\' :: e :: written) (c :: meant)
  | broken {e : Char} {written meant : List Char} (hEscape : escape? e = none)
      (rest : TextRead written meant) :
      TextRead ('\\' :: e :: written) ((brokenEscape e).1 :: ((brokenEscape e).2 ++ meant))

/-- The characters behind the backslashes that start an escape. -/
def escaped : List Char → List Char
  | '\\' :: e :: rest => e :: escaped rest
  | _ :: rest => escaped rest
  | [] => []

/-- A character of ASCII is its own byte. -/
theorem brokenEscape_of_lt {c : Char} (h : c.toNat < 128) : brokenEscape c = (c, []) := by
  have hByte : c.toNat.toUInt8.toNat = c.toNat := by
    rw [UInt8.toNat_ofNat']
    omega
  have hBytes : String.utf8EncodeChar c = [c.toNat.toUInt8] := if_pos (Nat.le_of_lt_succ h)
  rw [brokenEscape, hBytes]
  simp [hByte]

theorem reverse_brokenEscape (c : Char) : (brokenEscape c).2.reverse = (brokenEscape c).2 := by
  unfold brokenEscape
  split
  · rw [List.map_const', List.reverse_replicate]
  · rfl

/-- Where a character of a text comes from: it is written, it is the meaning of an escape, or it
belongs to a character that is not ASCII and makes no escape, but has a backslash before it. -/
def Stems (written : List Char) (c : Char) : Prop :=
  c ∈ written ∨ ∃ e ∈ escaped written, escape? e = some c ∨
    escape? e = none ∧ 128 ≤ e.toNat ∧ c ∈ (brokenEscape e).1 :: (brokenEscape e).2

namespace TextRead

variable {written meant : List Char}

/-- Each character of the text that a string is read as stems from what is written. -/
theorem stems (h : TextRead written meant) {c : Char} (hc : c ∈ meant) : Stems written c := by
  induction h with
  | nil => cases hc
  | unfinished => cases hc
  | @plain d written meant hEscape rest ih =>
      have hSkip : escaped (d :: written) = escaped written := by
        rw [escaped]
        rintro e more rfl
        exact fun _ => hEscape rfl
      rcases List.mem_cons.1 hc with rfl | hc
      · exact .inl List.mem_cons_self
      · rw [Stems, hSkip]
        exact (ih hc).imp_left (List.mem_cons_of_mem d)
  | @escape e d written meant hEscape rest ih =>
      rcases List.mem_cons.1 hc with rfl | hc
      · exact .inr ⟨e, List.mem_cons_self, .inl hEscape⟩
      · rcases ih hc with hWritten | ⟨e', hMem, hMeant⟩
        · exact .inl (List.mem_cons_of_mem _ (List.mem_cons_of_mem _ hWritten))
        · exact .inr ⟨e', List.mem_cons_of_mem _ hMem, hMeant⟩
  | @broken e written meant hEscape rest ih =>
      rw [← List.cons_append] at hc
      rcases List.mem_append.1 hc with hBroken | hc
      · by_cases hAscii : e.toNat < 128
        · rw [brokenEscape_of_lt hAscii] at hBroken
          rw [List.mem_singleton.1 hBroken]
          exact .inl (List.mem_cons_of_mem _ List.mem_cons_self)
        · exact .inr ⟨e, List.mem_cons_self, .inr ⟨hEscape, Nat.not_lt.1 hAscii, hBroken⟩⟩
      · rcases ih hc with hWritten | ⟨e', hMem, hMeant⟩
        · exact .inl (List.mem_cons_of_mem _ (List.mem_cons_of_mem _ hWritten))
        · exact .inr ⟨e', List.mem_cons_of_mem _ hMem, hMeant⟩

end TextRead

theorem TextRead.of_notMem {cs : List Char} (h : '\\' ∉ cs) : TextRead cs cs := by
  induction cs with
  | nil => exact .nil
  | cons c cs ih =>
      exact .plain (fun hc => h (by simp [hc])) (ih fun hMem => h (List.mem_cons_of_mem c hMem))

/-- Reading on from a place, these characters are found, and they cover the range. -/
def Place.CoversSlice (a : Place) (slice : List Char) (span : Span) : Prop :=
  ∃ p rest, a.LeadsTo ⟨p, slice ++ rest⟩ ∧ span = p.spanTo (p.past slice)

theorem Place.CoversSlice.before {a b : Place} {slice : List Char} {span : Span}
    (h : b.CoversSlice slice span) (hBefore : a.LeadsTo b) : a.CoversSlice slice span := by
  obtain ⟨p, rest, hLeads, hSpan⟩ := h
  exact ⟨p, rest, hBefore.trans hLeads, hSpan⟩

/-- What a fault quotes is found in its range, reading on from a place. -/
def LexFault.Quotes (a : Place) (span : Span) : LexFault → Prop
  | unknownEscape shown =>
    ∃ e, escape? e = none ∧ shown = (brokenEscape e).1 ∧ a.CoversSlice ['\\', e] span
  | loneBang => a.CoversSlice ['!'] span
  | unexpectedCharacter c => a.CoversSlice [c] span
  | _ => True

/-- A fault that quotes the source behind a place quotes it from that place too. -/
theorem LexFault.Quotes.before {a b : Place} {span : Span} {f : LexFault} (h : f.Quotes b span)
    (hBefore : a.LeadsTo b) : f.Quotes a span := by
  cases f with
  | unknownEscape shown =>
      obtain ⟨e, hEscape, hShown, hCovers⟩ := h
      exact ⟨e, hEscape, hShown, hCovers.before hBefore⟩
  | loneBang => exact Place.CoversSlice.before h hBefore
  | unexpectedCharacter c => exact Place.CoversSlice.before h hBefore
  | _ => trivial

/-- From a place on, a text is scanned that is written like this, behind what has been read of it;
the faults quote what is found there. -/
structure TextScan.Repeats (triple : Bool) (done : List Char) (faults : List (LexFault × Span))
    (p : Position) (cs : List Char) (r : TextScan) (body meant : List Char) : Prop where
  read : TextRead body meant
  text : r.text = .ofList (done.reverse ++ meant)
  rest : cs = body ++ (r.ending.mark triple ++ r.rest)
  position : r.position = p.past (body ++ r.ending.mark triple)
  faults : ∀ f ∈ r.faults, f ∈ faults ∨ f.1.Quotes ⟨p, cs⟩ f.2

/-- Some characters are read before the text goes on. -/
theorem TextScan.Repeats.behind {triple : Bool} {done done' cs body meant : List Char}
    {faults later : List (LexFault × Span)} {p : Position} {r : TextScan}
    (written shown : List Char) (hDone : done' = shown.reverse ++ done)
    (h : r.Repeats triple done' later (p.past written) cs body meant)
    (hRead : TextRead body meant → TextRead (written ++ body) (shown ++ meant))
    (hFaults : ∀ f ∈ later, f ∈ faults ∨ f.1.Quotes ⟨p, written ++ cs⟩ f.2) :
    r.Repeats triple done faults p (written ++ cs) (written ++ body) (shown ++ meant) where
  read := hRead h.read
  text := by rw [h.text, hDone, List.reverse_append, List.reverse_reverse, List.append_assoc]
  rest := by rw [List.append_assoc, ← h.rest]
  position := by rw [h.position, List.append_assoc, Position.past_append p]
  faults f hf := (h.faults f hf).elim (hFaults f) fun hQuotes =>
    .inr (hQuotes.before ⟨written, rfl, rfl⟩)

/-- By induction over the characters: what the scan of a text collects is what the text means, and
its faults quote it. -/
theorem repeats_scanText (triple : Bool) (done : List Char) (faults : List (LexFault × Span))
    (p : Position) (cs : List Char) : ∃ body meant,
      (scanText triple done faults p cs).Repeats triple done faults p cs body meant := by
  fun_induction scanText triple done faults p cs with
  | case1 done faults p =>
      exact ⟨[], [], .nil, by simp, rfl, rfl, fun f hf => .inl (List.mem_reverse.1 hf)⟩
  | case2 done faults p c cs hClose count =>
      obtain ⟨hQuote, hTriple⟩ := Bool.and_eq_true_iff.1 hClose
      obtain rfl := eq_of_beq hQuote
      have hCount : count = (quotes triple).length := by
        unfold count quotes
        split <;> rfl
      refine ⟨[], [], .nil, by simp, ?_, ?_, fun f hf => .inl (List.mem_reverse.1 hf)⟩
      · rw [hCount]
        exact closing_eq hTriple
      · rw [hCount]
        exact (past_quotes triple p).symm
  | case3 done faults p c cs =>
      exact ⟨[], [], .nil, by simp, rfl, rfl, fun f hf => .inl (List.mem_reverse.1 hf)⟩
  | case4 done faults p c cs _ _ hHole =>
      obtain ⟨hDollar, hBrace⟩ := Bool.and_eq_true_iff.1 hHole
      obtain rfl := eq_of_beq hDollar
      obtain ⟨more, rfl⟩ := List.head?_eq_some_iff.1 (eq_of_beq hBrace)
      exact ⟨[], [], .nil, by simp, rfl, rfl, fun f hf => .inl (List.mem_reverse.1 hf)⟩
  | case5 done faults p c _ hSlash fault =>
      obtain rfl := eq_of_beq hSlash
      refine ⟨['\\'], [], .unfinished, by simp, rfl, rfl, fun f hf => ?_⟩
      rcases List.mem_cons.1 (List.mem_reverse.1 hf) with rfl | hOld
      · exact .inr trivial
      · exact .inl hOld
  | case6 done faults p c _ hSlash e more next meant hEscape _ _ ih =>
      obtain rfl := eq_of_beq hSlash
      obtain ⟨body, rest, hRepeats⟩ := ih
      exact ⟨_, _, TextScan.Repeats.behind ['\\', e] [meant] rfl hRepeats (.escape hEscape)
        fun f hf => .inl hf⟩
  | case7 done faults p c _ hSlash e more next hEscape shown others hBroken fault _ _ ih =>
      obtain rfl := eq_of_beq hSlash
      obtain ⟨body, rest, hRepeats⟩ := ih
      have hParts : brokenEscape e = (shown, others) := hBroken
      have hOthers : others.reverse = others := by
        have hSame := reverse_brokenEscape e
        rwa [hParts] at hSame
      have hDone : others ++ shown :: done = (shown :: others).reverse ++ done := by
        rw [List.reverse_cons, hOthers, List.append_assoc, List.singleton_append]
      refine ⟨_, _, TextScan.Repeats.behind ['\\', e] (shown :: others) hDone hRepeats
        (fun hRead => ?_) fun f hf => ?_⟩
      · have hMeant := TextRead.broken hEscape hRead
        rwa [hParts] at hMeant
      · rcases List.mem_cons.1 hf with rfl | hOld
        · exact .inr ⟨e, hEscape, by rw [hParts], p, more, .refl _, rfl⟩
        · exact .inl hOld
  | case8 done faults p c cs hClose hLine hHole hSlash ih =>
      obtain ⟨body, rest, hRepeats⟩ := ih
      exact ⟨_, _, TextScan.Repeats.behind [c] [c] rfl hRepeats
        (.plain fun hEq => hSlash (beq_iff_eq.2 hEq)) fun f hf => .inl hf⟩

def TokenKind.payload? : TokenKind → Option String
  | text s | textStart s | textPart s | textEnd s | name s => some s
  | _ => none

namespace Lexeme

/-- A lexeme carries nothing but what it is written as, and its fault is about its only character,
unless it is a number. -/
structure Repeats (cs : List Char) (l : Lexeme) : Prop where
  payload : ∀ kind text, l.kind = some kind → kind.payload? = some text →
    text.toList = cs.take l.length ∧ '\\' ∉ text.toList
  fault : ∀ f, l.fault = some f → (∃ written, f = .integerOutOfRange written) ∨
    ∃ c, cs.take l.length = [c] ∧ (f = .unexpectedCharacter c ∨ f = .loneBang ∧ c = '!')

/-- An integer carries nothing but what it is written as. -/
theorem repeats_integer (base : Nat) (written digits cs : List Char) :
    (integer base written digits).Repeats cs := by
  unfold integer
  split
  · refine ⟨?_, nofun⟩
    rintro _ _ ⟨⟩ ⟨⟩
  · refine ⟨?_, ?_⟩
    · rintro _ _ ⟨⟩ ⟨⟩
    · rintro _ ⟨⟩
      exact .inl ⟨_, rfl⟩

/-- A decimal number carries nothing but what it is written as, whatever text it stands in. -/
theorem repeats_decimal (cs cs' : List Char) : (decimal cs).Repeats cs' := by
  unfold decimal
  dsimp only
  split
  · split
    · refine ⟨?_, nofun⟩
      rintro _ _ ⟨⟩ ⟨⟩
    · exact repeats_integer _ _ _ _
  · exact repeats_integer _ _ _ _

/-- A number carries nothing but what it is written as, whatever text it stands in. -/
theorem repeats_number (cs cs' : List Char) : (number cs).Repeats cs' := by
  unfold number
  split
  · split
    · exact repeats_integer _ _ _ _
    · exact repeats_decimal _ _
  · exact repeats_decimal _ _

/-- A word carries the characters that it is written with. -/
theorem repeats_word (cs : List Char) : (word cs).Repeats cs := by
  have hTaken : cs.take (cs.takeWhile Text.isIdentChar).length = cs.takeWhile Text.isIdentChar :=
    (List.prefix_iff_eq_take.1 (List.takeWhile_prefix _)).symm
  have hEscape : '\\' ∉ cs.takeWhile Text.isIdentChar :=
    fun hMem => absurd (List.mem_takeWhile_imp hMem) (by decide)
  unfold word
  refine ⟨fun kind text hKind hText => ?_, nofun⟩
  dsimp only at hKind ⊢
  rw [String.length_ofList, hTaken]
  split at hKind
  · cases hKind
    cases hText
  · cases hKind
    cases hText
    rw [String.toList_ofList]
    exact ⟨rfl, hEscape⟩

/-- Whatever code starts with this character, the lexeme repeats what it takes. -/
theorem repeats_ofCode (c : Char) (cs : List Char) : (ofCode c cs).Repeats (c :: cs) := by
  unfold ofCode
  split
  · refine ⟨?_, nofun⟩
    rintro _ _ ⟨⟩ ⟨⟩
  · split
    · exact repeats_number _ _
    · split
      · exact repeats_word _
      · split
        · refine ⟨?_, nofun⟩
          rintro _ _ ⟨⟩ ⟨⟩
        · refine ⟨nofun, ?_⟩
          rintro _ ⟨⟩
          refine .inr ⟨c, rfl, ?_⟩
          split
          next hBang => exact .inr ⟨rfl, eq_of_beq hBang⟩
          next => exact .inl rfl

end Lexeme

/-- What may stand around the text of a token: nothing, quotes, or the mark that opens a hole. -/
def IsEdge (cs : List Char) : Prop :=
  cs = [] ∨ (∃ triple, cs = quotes triple) ∨ cs = ['$', '{']

theorem isEdge_mark (triple : Bool) (ending : TextEnd) : IsEdge (ending.mark triple) := by
  cases ending with
  | closed => exact .inr (.inl ⟨triple, rfl⟩)
  | hole => exact .inr (.inr rfl)
  | unterminated => exact .inl rfl

/-- Reading on from a place, the text that the token carries is found in its range. -/
def Token.Repeats (a : Place) (t : Token) : Prop :=
  ∀ text, t.kind.payload? = some text → ∃ opening body closing,
    a.CoversSlice (opening ++ (body ++ closing)) t.span ∧ IsEdge opening ∧ IsEdge closing ∧
      TextRead body text.toList

theorem Token.repeats_of_payload {a : Place} {t : Token} (h : t.kind.payload? = none) :
    t.Repeats a := by
  intro text hText
  rw [h] at hText
  cases hText

/-- Every problem that a report keeps quotes what is found at its place, and no other is missing as
long as there is room. -/
structure ReportRepeats (file : SourceFile) (a : Place) (r : Report) : Prop where
  kept : ∀ p ∈ r.kept, ∃ (f : LexFault) (span : Span), f.Quotes a span ∧
    p = file.problem f.code f.message span f.suggestion
  counted : r.Counted

namespace Scan

/-- The scan has read on from a place, and its problems quote what has been found on the way. -/
structure Repeats (file : SourceFile) (a : Place) (s : Scan) : Prop where
  place : a.LeadsTo s.place
  report : ReportRepeats file a s.report

variable {file : SourceFile} {a : Place} {s : Scan}

/-- Recording a fault that quotes the source keeps the source quoted. -/
theorem Repeats.fault (h : s.Repeats file a) {f : LexFault} {span : Span}
    (hQuotes : f.Quotes a span) : (s.fault file f span).Repeats file a := by
  refine ⟨h.place, fun p hp => ?_, h.report.counted.push _⟩
  rcases Report.mem_kept_push hp with hOld | rfl
  · exact h.report.kept p hOld
  · exact ⟨f, span, hQuotes, rfl⟩

/-- Recording faults that quote the source keeps it quoted. -/
theorem Repeats.faults (h : s.Repeats file a) (faults : List (LexFault × Span))
    (hFaults : ∀ f ∈ faults, f.1.Quotes a f.2) :
    (faults.foldl (fun s (f, span) => s.fault file f span) s).Repeats file a := by
  induction faults generalizing s with
  | nil => exact h
  | cons first rest ih =>
      exact ih (h.fault (hFaults first List.mem_cons_self))
        fun f hf => hFaults f (List.mem_cons_of_mem _ hf)

/-- The quotes before the text of a string that starts here. -/
def openingQuotes (triple opening : Bool) : List Char := if opening then quotes triple else []

/-- The text of a string repeats the source, from its opening quotes to its closing ones. -/
theorem Repeats.takeText (h : s.Repeats file a) (triple opening : Bool) {start : Position}
    (hStart : a.LeadsTo ⟨start, openingQuotes triple opening ++ s.rest⟩)
    (hPosition : s.position = start.past (openingQuotes triple opening)) :
    (∀ t ∈ (s.takeText file triple opening start).1, t.Repeats a) ∧
      (s.takeText file triple opening start).2.Repeats file a := by
  obtain ⟨body, meant, hRepeats⟩ := repeats_scanText triple [] [] s.position s.rest
  have hRecorded := h.faults (scanText triple [] [] s.position s.rest).faults fun f hf =>
    ((hRepeats.faults f hf).resolve_left (by simp)).before h.place
  unfold Scan.takeText
  dsimp only
  generalize scanText triple [] [] s.position s.rest = r at hRepeats hRecorded
  generalize r.faults.foldl (fun s (f, span) => s.fault file f span) s = recorded at hRecorded
  have hPlace : a.LeadsTo ⟨r.position, r.rest⟩ := by
    refine h.place.trans ⟨body ++ r.ending.mark triple, ?_, hRepeats.position⟩
    rw [List.append_assoc]
    exact hRepeats.rest
  have hToken : ∀ kind : TokenKind, kind.payload? = some r.text →
      Token.Repeats a ⟨kind, start.spanTo r.position⟩ := by
    intro kind hKind text hText
    obtain rfl := Option.some.inj (hKind.symm.trans hText)
    refine ⟨openingQuotes triple opening, body, r.ending.mark triple, ⟨start, r.rest, ?_, ?_⟩, ?_,
      isEdge_mark _ _, ?_⟩
    · rw [List.append_assoc, List.append_assoc, ← hRepeats.rest]
      exact hStart
    · rw [Position.past_append, ← hPosition, ← hRepeats.position]
    · cases opening with
      | true => exact .inr (.inl ⟨triple, rfl⟩)
      | false => exact .inl rfl
    · rw [hRepeats.text, String.toList_ofList]
      exact hRepeats.read
  have hWhole : Token.Repeats a
      ⟨if opening then .text r.text else .textEnd r.text, start.spanTo r.position⟩ :=
    hToken _ (by cases opening <;> rfl)
  cases hEnding : r.ending with
  | closed =>
      refine ⟨?_, hPlace, hRecorded.report⟩
      rintro t (_ | ⟨_, ⟨⟩⟩)
      exact hWhole
  | unterminated =>
      refine ⟨?_, hPlace, (hRecorded.fault (f := .unterminatedString) trivial).report⟩
      rintro t (_ | ⟨_, ⟨⟩⟩)
      exact hWhole
  | hole =>
      refine ⟨?_, hPlace, hRecorded.report⟩
      rintro t (_ | ⟨_, ht⟩)
      · exact hToken _ (by cases opening <;> rfl)
      · split at ht
        · cases ht
        · rw [List.mem_singleton.1 ht]
          exact Token.repeats_of_payload rfl

/-- Reading a lexeme repeats what it is written as. -/
theorem Repeats.behind (h : s.Repeats file a) {c : Char} {cs : List Char}
    (hRest : s.rest = c :: cs) : (s.behind c cs).Repeats file a ∧
      a.CoversSlice ((c :: cs).take (Lexeme.ofCode c cs).length)
        (s.position.spanTo (s.behind c cs).position) := by
  have hPlace : a.LeadsTo ⟨s.position, c :: cs⟩ := hRest ▸ h.place
  have hParts : (c :: cs).take (Lexeme.ofCode c cs).length ++
      (c :: cs).drop (Lexeme.ofCode c cs).length = c :: cs := List.take_append_drop _ _
  rw [s.behind_eq hRest]
  refine ⟨⟨hPlace.trans ⟨_, hParts.symm, rfl⟩, h.report⟩, s.position,
    (c :: cs).drop (Lexeme.ofCode c cs).length, ?_, rfl⟩
  rw [hParts]
  exact hPlace

/-- Recording the fault of a lexeme keeps a scan repeating the source, as the fault quotes the
lexeme's only character. -/
theorem Repeats.noted (h : s.Repeats file a) {c : Char} {cs : List Char}
    (hRest : s.rest = c :: cs) : (s.noted file c cs).Repeats file a := by
  obtain ⟨hNext, hCovers⟩ := h.behind hRest
  unfold Scan.noted
  split
  next f hSome =>
    refine hNext.fault ?_
    rcases (Lexeme.repeats_ofCode c cs).fault f hSome with ⟨written, rfl⟩ | ⟨d, hTaken, hKind⟩
    · trivial
    · rw [hTaken] at hCovers
      rcases hKind with rfl | ⟨rfl, rfl⟩
      · exact hCovers
      · exact hCovers
  next => exact hNext

/-- The token of a lexeme carries what the lexeme is written as. -/
theorem Repeats.lexeme (h : s.Repeats file a) {c : Char} {cs : List Char}
    (hRest : s.rest = c :: cs) {kind : TokenKind} (hKind : (Lexeme.ofCode c cs).kind = some kind) :
    Token.Repeats a ⟨kind, s.position.spanTo (s.behind c cs).position⟩ := by
  intro text hText
  obtain ⟨hWritten, hEscape⟩ := (Lexeme.repeats_ofCode c cs).payload kind text hKind hText
  refine ⟨[], text.toList, [], ?_, .inl rfl, .inl rfl, .of_notMem hEscape⟩
  rw [List.append_nil, hWritten]
  exact (h.behind hRest).2

/-- Opening or closing a hole reads nothing. -/
theorem Repeats.brace (h : s.Repeats file a) (symbol : Symbol) :
    (s.brace symbol).2.Repeats file a := by
  unfold Scan.brace
  split
  · exact ⟨h.place, h.report⟩
  · exact ⟨h.place, h.report⟩
  · exact ⟨h.place, h.report⟩
  · exact h

/-- By induction on the bound of steps: tokens of code repeat the source they were taken from. -/
theorem Repeats.takeCode (h : s.Repeats file a) (fuel : Nat) :
    (∀ t ∈ (s.takeCode file fuel).1, t.Repeats a) ∧
      (s.takeCode file fuel).2.1.Repeats file a := by
  have hSingle : ∀ {t : Token} {next : Scan}, t.Repeats a → next.Repeats file a →
      (∀ t' ∈ [t], t'.Repeats a) ∧ next.Repeats file a :=
    fun hToken hNext => ⟨List.forall_mem_singleton.2 hToken, hNext⟩
  have hMark : ∀ {mark : Mark} {span : Span}, Token.Repeats a ⟨.mark mark, span⟩ :=
    Token.repeats_of_payload rfl
  induction fuel generalizing s with
  | zero => exact hSingle hMark h
  | succ fuel ih =>
      obtain ⟨gap, hSkips⟩ := s.exists_skips
      have hSkipped : s.skipIgnored.Repeats file a :=
        ⟨h.place.trans ⟨gap, hSkips.rest, hSkips.position⟩, hSkips.report ▸ h.report⟩
      obtain ⟨outcome, hRound, hTaken⟩ := s.exists_round file
      rw [hTaken]
      generalize s.skipIgnored = s' at hSkipped hRound
      cases hRound with
      | full => exact hSingle hMark hSkipped
      | finished => exact hSingle hMark hSkipped
      | unfinished => exact hSingle hMark (hSkipped.fault (f := .unterminatedString) trivial)
      | string hRest hTriple =>
          obtain ⟨hSkip, hQuotes⟩ := skip_quotes hRest hTriple
          have hPlace := hSkipped.place
          rw [Scan.place, hQuotes] at hPlace
          refine Repeats.takeText ?_ _ true ?_ ?_
          · rw [hSkip]
            exact ⟨hPlace.trans ⟨_, rfl, rfl⟩, hSkipped.report⟩
          · rw [hSkip]
            exact hPlace
          · rw [hSkip]
            rfl
      | faulty _ hRest => exact ih (hSkipped.noted hRest)
      | symbol hRest => exact hSingle hMark ((hSkipped.noted hRest).brace _)
      | token hRest _ hKind => exact hSingle (hSkipped.lexeme hRest hKind) (hSkipped.noted hRest)

/-- A step of a scan repeats the source: each token it takes has a slice of the source behind the
place. -/
theorem Repeats.step (h : s.Repeats file a) {r : List Token × Scan × Bool}
    (hStep : s.Step file r) : (∀ t ∈ r.1, t.Repeats a) ∧ r.2.1.Repeats file a := by
  cases hStep with
  | full => exact ⟨List.forall_mem_singleton.2 (Token.repeats_of_payload rfl), h⟩
  | text => exact h.takeText _ false h.place rfl
  | code => exact h.takeCode _

/-- By induction on the bound of steps: all tokens and all problems of a scan repeat the source. -/
theorem Repeats.takeAll (h : s.Repeats file a) (fuel : Nat) {done : List Token}
    (hDone : ∀ t ∈ done, t.Repeats a) :
    (∀ t ∈ (s.takeAll file fuel done).1, t.Repeats a) ∧
      ReportRepeats file a (s.takeAll file fuel done).2 := by
  induction fuel generalizing s done with
  | zero =>
      refine ⟨fun t ht => ?_, h.report⟩
      rcases List.mem_cons.1 (List.mem_reverse.1 ht) with rfl | ht
      · exact Token.repeats_of_payload rfl
      · exact hDone t ht
  | succ fuel ih =>
      obtain ⟨r, hStep, hTaken⟩ := s.exists_step file
      obtain ⟨hTokens, hNext⟩ := h.step hStep
      have hAll : ∀ t ∈ r.1.reverse ++ done, t.Repeats a := fun t ht =>
        (List.mem_append.1 ht).elim (fun ht => hTokens t (List.mem_reverse.1 ht)) (hDone t)
      rw [hTaken]
      split
      next => exact ⟨fun t ht => hAll t (List.mem_reverse.1 ht), hNext.report⟩
      next => exact ih hNext hAll

end Scan

/-- All tokens and problems repeat what is found in the text. -/
theorem repeats_tokens (file : SourceFile) :
    (∀ t ∈ (tokens file).1, t.Repeats ⟨.origin, file.text.toList⟩) ∧
      ReportRepeats file ⟨.origin, file.text.toList⟩ (tokens file).2 :=
  Scan.Repeats.takeAll ⟨.refl _, by simp, Report.counted_empty⟩ _ (by simp)

end Script

/-- These characters of a text cover the range. -/
def SourceFile.HasSlice (file : SourceFile) (slice : List Char) (span : Span) : Prop :=
  ∃ before after, file.text.toList = before ++ (slice ++ after) ∧
    span = (Script.behindAll before).spanTo (Script.behindAll (before ++ slice))

namespace Script

/-- A slice that is covered from the start of a file is a slice of the file. -/
theorem Place.CoversSlice.hasSlice {file : SourceFile} {slice : List Char} {span : Span}
    (h : CoversSlice ⟨.origin, file.text.toList⟩ slice span) : file.HasSlice slice span := by
  obtain ⟨p, rest, ⟨before, hText, hPosition⟩, hSpan⟩ := h
  refine ⟨before, rest, hText, ?_⟩
  have hStart : p = behindAll before := hPosition.trans (past_origin before)
  have hStop : behindAll (before ++ slice) = p.past slice := by
    rw [← past_origin, Position.past_append, past_origin, hStart]
  rw [hSpan, hStop, hStart]

/-- The text that a token carries is read from the characters in its range, between quotes and
marks: it has no character that is not written there or meant by an escape there. A problem with a
character quotes the one in its range, and a problem with an escape the one behind the backslash.
The exception are characters that are not ASCII and make no escape, but have a backslash before
them. -/
theorem tokens_repeat_source (file : SourceFile) :
    (∀ t ∈ (tokens file).1, ∀ text, t.kind.payload? = some text → ∃ opening body closing,
      file.HasSlice (opening ++ (body ++ closing)) t.span ∧ IsEdge opening ∧ IsEdge closing ∧
        TextRead body text.toList ∧ ∀ c ∈ text.toList, Stems body c) ∧
    ∀ p ∈ (tokens file).2.kept,
      (p.code = .unexpectedCharacter → ∃ c, file.HasSlice [c] p.span ∧
        p.message = "Unexpected character '" ++ c.toString ++ "'") ∧
      (p.code = .invalidEscape → ∃ e, escape? e = none ∧ file.HasSlice ['\\', e] p.span ∧
        p.message = "Invalid escape sequence '\\" ++ (brokenEscape e).1.toString ++ "'" ∧
        (e.toNat < 128 → (brokenEscape e).1 = e)) := by
  obtain ⟨hTokens, hReport⟩ := repeats_tokens file
  refine ⟨fun t ht text hText => ?_, fun p hp => ?_⟩
  · obtain ⟨opening, body, closing, hCovers, hOpening, hClosing, hRead⟩ := hTokens t ht text hText
    exact ⟨opening, body, closing, hCovers.hasSlice, hOpening, hClosing, hRead,
      fun c hc => hRead.stems hc⟩
  · obtain ⟨f, span, hQuotes, rfl⟩ := hReport.kept p hp
    constructor
    · intro hCode
      cases f with
      | unexpectedCharacter c => exact ⟨c, Place.CoversSlice.hasSlice hQuotes, rfl⟩
      | loneBang => exact ⟨'!', Place.CoversSlice.hasSlice hQuotes, rfl⟩
      | _ => cases hCode
    · intro hCode
      cases f with
      | unknownEscape shown =>
          obtain ⟨e, hEscape, rfl, hCovers⟩ := hQuotes
          exact ⟨e, hEscape, hCovers.hasSlice, rfl, fun hAscii => by rw [brokenEscape_of_lt hAscii]⟩
      | _ => cases hCode

/-- A string with an escape, and a character that starts no token. -/
def lineBreakAndAt : SourceFile := .ofText "unit" "\"\\n\" @"

/-- A string with an escaped line break, and a character that starts no token: the line break of the
text stems from the escape. -/
theorem tokens_repeat_source_lineBreak :
    (∃ t ∈ (tokens lineBreakAndAt).1, t.kind.payload? = some "\n" ∧
      ∃ opening body closing, lineBreakAndAt.HasSlice (opening ++ (body ++ closing)) t.span ∧
        TextRead body ['\n'] ∧ Stems body '\n') ∧
    ∃ p ∈ (tokens lineBreakAndAt).2.kept, p.code = .unexpectedCharacter ∧
      ∃ c, lineBreakAndAt.HasSlice [c] p.span := by
  have hText : ∃ t ∈ (tokens lineBreakAndAt).1, t.kind.payload? = some "\n" := by decide +kernel
  have hFault : ∃ p ∈ (tokens lineBreakAndAt).2.kept, p.code = .unexpectedCharacter := by
    decide +kernel
  obtain ⟨hTokens, hProblems⟩ := tokens_repeat_source lineBreakAndAt
  refine ⟨?_, ?_⟩
  · obtain ⟨t, ht, hPayload⟩ := hText
    obtain ⟨opening, body, closing, hHolds, -, -, hRead, hStems⟩ := hTokens t ht "\n" hPayload
    exact ⟨t, ht, hPayload, opening, body, closing, hHolds, hRead, hStems '\n' (by decide)⟩
  · obtain ⟨p, hp, hCode⟩ := hFault
    obtain ⟨c, hHolds, -⟩ := (hProblems p hp).1 hCode
    exact ⟨p, hp, hCode, c, hHolds⟩

/-- A letter that is not ASCII, behind a backslash: neither the text nor the message has it. -/
theorem escape_takes_letter_apart :
    let file := SourceFile.ofText "unit" "\"\\é\""
    (tokens file).1.filterMap (·.kind.payload?) = ["Ã\uFFFD"] ∧
      (tokens file).2.kept.map (·.message) = ["Invalid escape sequence '\\Ã'"] ∧
      'Ã' ∉ file.text.toList := by decide +kernel

end Script

end Metagen
