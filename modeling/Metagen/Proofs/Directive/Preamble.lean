import Metagen.Directive.Compilation
import Metagen.Proofs.Script.Grammar
import Metagen.Proofs.Text.Words
import Mathlib.Data.List.TakeWhile

/-! What stands before the lines of a directive in its script. The comment and the declarations of
globals are read without any problem, so that reading comes to the lines of the directive as if
there were nothing else. -/

namespace Metagen.Script

namespace Scan

variable {file : SourceFile} {s s' : Scan} {c : Char} {cs rest : List Char} {kind : TokenKind}

/-- A scan of code that has found no fault. -/
def clean (rest : List Char) (position : Position) : Scan := ⟨rest, position, [], {}⟩

/-- A piece of code that is no fault, no string and no symbol becomes one token. -/
theorem takeCode_eq (file : SourceFile) (hSkipped : s.skipIgnored = s')
    (hReport : s'.report.isFull = false) (hRest : s'.rest = c :: cs) (hQuote : (c == '"') = false)
    (hFault : (Lexeme.ofCode c cs).fault = none) (hKind : (Lexeme.ofCode c cs).kind = some kind)
    (hSymbol : ∀ symbol, kind ≠ .mark (.symbol symbol)) (fuel : Nat) :
    s.takeCode file (fuel + 1) =
      ([⟨kind, s'.position.spanTo (s'.behind c cs).position⟩], s'.behind c cs, false) := by
  unfold takeCode
  dsimp only
  rw [hSkipped, hReport, hRest]
  dsimp only
  rw [if_neg (by simp), if_neg (by simp [hQuote])]
  simp only [hKind, hFault, Scan.behind, hRest]

/-- Reading all tokens goes on behind the first one. -/
theorem takeAll_eq {position : Position} {t : Token}
    (h : (clean rest position).takeCode file (maxProblems + 1) = ([t], s', false)) (fuel : Nat)
    (done : List Token) :
    (clean rest position).takeAll file (fuel + 1) done = s'.takeAll file fuel (t :: done) := by
  conv_lhs => unfold takeAll
  simp only [h]
  rfl

/-- Gaps in front of code are passed over. -/
theorem skipIgnored_eq (gaps : List Char) (hRest : s.rest = gaps ++ c :: cs)
    (hGaps : ∀ g ∈ gaps, isGap g = true) (hGap : isGap c = false) (hHash : c ≠ '#') :
    s.skipIgnored = s.skip gaps.length := by
  have hTaken : s.rest.takeWhile isGap = gaps := by
    rw [hRest, List.takeWhile_append_of_pos hGaps, List.takeWhile_cons, hGap]
    exact List.append_nil _
  have hLeft : (s.skip gaps.length).rest = c :: cs := by
    rw [skip, hRest, List.drop_left]
  unfold skipIgnored
  dsimp only
  rw [hTaken, hLeft]
  split
  next hComment => exact (hHash (List.cons.inj hComment).1).elim
  next => rfl

/-- A line end is a token of its own. -/
theorem takeAll_newline (file : SourceFile) (rest : List Char) (line column : Nat) :
    ∃ t : Token, t.kind = .mark .newline ∧ t.span.start.line = line ∧ ∀ fuel done,
      (clean ('\n' :: rest) ⟨line, column⟩).takeAll file (fuel + 1) done =
        (clean rest ⟨line + 1, 1⟩).takeAll file fuel (t :: done) := by
  have hSkipped : (clean ('\n' :: rest) ⟨line, column⟩).skipIgnored =
      clean ('\n' :: rest) ⟨line, column⟩ :=
    skipIgnored_eq [] rfl (by simp) (by decide) (by decide)
  have hTaken := takeCode_eq file hSkipped rfl rfl (by decide) rfl rfl (by simp) maxProblems
  exact ⟨_, rfl, rfl, fun fuel done => takeAll_eq hTaken fuel done⟩

def IsWord (cs : List Char) : Prop :=
  ∃ first others, cs = first :: others ∧ Text.isIdentStart first = true ∧
    ∀ c ∈ others, Text.isIdentChar c = true

/-- No digit starts a name, so that names and numbers cannot be mistaken for one another. -/
theorem isDigit_of_isIdentStart (h : Text.isIdentStart c = true) : c.isDigit = false := by
  cases hDigit : c.isDigit with
  | false => rfl
  | true =>
      have hAlpha : c.isAlpha = (decide (c.val ≥ 'A'.val ∧ c.val ≤ 'Z'.val) ||
          (decide (c.val ≥ 'a'.val) && decide (c.val ≤ 'z'.val))) := rfl
      simp only [Text.isIdentStart, hAlpha, Char.isDigit, Bool.or_eq_true, Bool.and_eq_true,
        decide_eq_true_eq, beq_iff_eq, ge_iff_le, UInt32.le_iff_toNat_le] at h hDigit
      rcases h with (h | h) | rfl
      · simp at h hDigit
        omega
      · simp at h hDigit
        omega
      · simp at hDigit

theorem ne_of_isIdentStart (h : Text.isIdentStart c = true) {d : Char}
    (hOther : Text.isIdentStart d = false) : c ≠ d := by
  rintro rfl
  rw [h] at hOther
  cases hOther

theorem IsWord.all {word : List Char} (h : IsWord word) :
    ∀ c ∈ word, Text.isIdentChar c = true := by
  obtain ⟨first, others, rfl, hFirst, hOthers⟩ := h
  exact List.forall_mem_cons.2 ⟨isIdentChar_of_isIdentStart hFirst, hOthers⟩

theorem IsWord.takeWhile_eq {word : List Char} (h : IsWord word) :
    word.takeWhile Text.isIdentChar = word := List.takeWhile_eq_self_iff.2 h.all

/-- A word is read up to a character that belongs to no word. -/
theorem ofCode_word {first : Char} {others : List Char} (h : IsWord (first :: others))
    (hFirst : Text.isIdentStart first = true) (hEnd : Text.isIdentChar c = false)
    (rest : List Char) :
    Lexeme.ofCode first (others ++ c :: rest) = Lexeme.word (first :: others) ∧
      (Lexeme.word (first :: others)).length = (first :: others).length := by
  have hTaken : (first :: others ++ c :: rest).takeWhile Text.isIdentChar = first :: others := by
    rw [List.takeWhile_append_of_pos h.all, List.takeWhile_cons, hEnd]
    exact List.append_nil _
  constructor
  · unfold Lexeme.ofCode
    rw [if_neg (by simpa using ne_of_isIdentStart hFirst (by decide)),
      if_neg (by simp [isDigit_of_isIdentStart hFirst]), if_pos hFirst]
    unfold Lexeme.word
    rw [← List.cons_append, hTaken, h.takeWhile_eq]
  · unfold Lexeme.word
    dsimp only
    rw [h.takeWhile_eq, String.length_ofList]

/-- A word is a token, whatever gaps are before it. -/
theorem takeAll_word (file : SourceFile) {word : List Char} (hWord : IsWord word)
    (gaps : List Char) (hGaps : ∀ g ∈ gaps, isGap g = true) (c : Char)
    (hEnd : Text.isIdentChar c = false) (rest : List Char) (line column : Nat) :
    ∃ (t : Token) (column' : Nat), (Lexeme.word word).kind = some t.kind ∧
      t.span.start.line = line ∧ ∀ fuel done,
      (clean (gaps ++ (word ++ c :: rest)) ⟨line, column⟩).takeAll file (fuel + 1) done =
        (clean (c :: rest) ⟨line, column'⟩).takeAll file fuel (t :: done) := by
  obtain ⟨first, others, rfl, hFirst, -⟩ := id hWord
  obtain ⟨hCode, hLength⟩ := ofCode_word hWord hFirst hEnd rest
  obtain ⟨kind, hKind, hSymbol⟩ : ∃ kind, (Lexeme.word (first :: others)).kind = some kind ∧
      ∀ symbol, kind ≠ .mark (.symbol symbol) := by
    unfold Lexeme.word
    dsimp only
    split
    · exact ⟨_, rfl, nofun⟩
    · exact ⟨_, rfl, nofun⟩
  have hFault : (Lexeme.word (first :: others)).fault = none := rfl
  have hGap : isGap first = false := by
    simp [isGap, ne_of_isIdentStart hFirst (d := ' ') (by decide),
      ne_of_isIdentStart hFirst (d := '\t') (by decide),
      ne_of_isIdentStart hFirst (d := '\r') (by decide)]
  let code : List Char := first :: (others ++ c :: rest)
  have hSkipped : (clean (gaps ++ code) ⟨line, column⟩).skipIgnored =
      clean code ⟨line, column + gaps.length⟩ := by
    rw [skipIgnored_eq gaps rfl hGaps hGap (ne_of_isIdentStart hFirst (by decide)), skip, clean,
      List.drop_left]
    rfl
  have hBehind : (clean code ⟨line, column + gaps.length⟩).behind first (others ++ c :: rest) =
      clean (c :: rest) ⟨line, column + gaps.length + (first :: others).length⟩ := by
    have hLine : (first == '\n') = false := by
      simpa using ne_of_isIdentStart hFirst (d := '\n') (by decide)
    rw [Scan.behind, hCode, hLength, hLine]
    simp [clean, code]
  have hRest : (clean code ⟨line, column + gaps.length⟩).rest =
      first :: (others ++ c :: rest) := rfl
  have hTaken := takeCode_eq file hSkipped rfl hRest
    (by simpa using ne_of_isIdentStart hFirst (d := '"') (by decide)) (hCode ▸ hFault)
    (hCode ▸ hKind) hSymbol maxProblems
  rw [hBehind] at hTaken
  exact ⟨_, _, hKind, rfl, fun fuel done => takeAll_eq hTaken fuel done⟩

/-- A comment is passed over up to the end of its line. -/
theorem takeAll_comment (file : SourceFile) {comment : List Char} (hLine : '\n' ∉ comment)
    (rest : List Char) (line column : Nat) :
    ∃ t : Token, t.kind = .mark .newline ∧ t.span.start.line = line ∧ ∀ fuel done,
      (clean ('#' :: comment ++ '\n' :: rest) ⟨line, column⟩).takeAll file (fuel + 1) done =
        (clean rest ⟨line + 1, 1⟩).takeAll file fuel (t :: done) := by
  have hSkipped : (clean ('#' :: comment ++ '\n' :: rest) ⟨line, column⟩).skipIgnored =
      clean ('\n' :: rest) ⟨line, column + (comment.length + 1)⟩ := by
    have hTaken : ('#' :: comment ++ '\n' :: rest).takeWhile (· != '\n') = '#' :: comment := by
      rw [List.takeWhile_append_of_pos]
      · simp
      · rintro c (_ | ⟨_, hc⟩)
        · decide
        · exact bne_iff_ne.2 fun hEq => hLine (hEq ▸ hc)
    calc (clean ('#' :: comment ++ '\n' :: rest) ⟨line, column⟩).skipIgnored
      _ = (clean ('#' :: comment ++ '\n' :: rest) ⟨line, column⟩).skip
          (('#' :: comment ++ '\n' :: rest).takeWhile (· != '\n')).length := rfl
      _ = clean ('\n' :: rest) ⟨line, column + (comment.length + 1)⟩ := by
        rw [hTaken, skip]
        simp [clean]
  have hTaken := takeCode_eq file hSkipped rfl rfl (by decide) rfl rfl (by simp) maxProblems
  exact ⟨_, rfl, rfl, fun fuel done => takeAll_eq hTaken fuel done⟩

/-- Tokens of lines that declare globals, one on each line from the first one on. -/
inductive Declare : Nat → List String → List Token → Prop where
  | nil {line : Nat} : Declare line [] []
  | cons {line : Nat} {name : String} {names : List String} {word ident lineEnd : Span}
      {tokens : List Token} (word_line : word.start.line = line)
      (ident_line : ident.start.line = line) (end_line : lineEnd.start.line = line)
      (rest : Declare (line + 1) names tokens) :
      Declare line (name :: names) (⟨.mark (.keyword .globalWord), word⟩ ::
        ⟨.name name, ident⟩ :: ⟨.mark .newline, lineEnd⟩ :: tokens)

/-- The declaration of one global takes three tokens: the word, the name and the end of its line. -/
theorem Declare.length_eq {line : Nat} {names : List String} {tokens : List Token}
    (h : Declare line names tokens) : tokens.length = 3 * names.length := by
  induction h with
  | nil => rfl
  | cons _ _ _ hRest ih =>
      simp only [List.length_cons]
      omega

/-- The name can be declared global in a script. -/
structure IsGlobalName (name : String) : Prop where
  word : IsWord name.toList
  keyword : Keyword.ofSpelling? name = none

/-- The characters of some lines, each with its end. -/
def lineChars (lines : List String) : List Char := lines.flatMap fun line => line.toList ++ ['\n']

theorem kind_word {name : String} (h : IsGlobalName name) :
    (Lexeme.word name.toList).kind = some (.name name) := by
  unfold Lexeme.word
  dsimp only
  rw [h.word.takeWhile_eq, String.ofList_toList, h.keyword]

/-- Declarations of globals are read as such. -/
theorem takeAll_globals (file : SourceFile) {names : List String}
    (hNames : ∀ name ∈ names, IsGlobalName name) (rest : List Char) (line : Nat) :
    ∃ tokens, Declare line names tokens ∧ ∀ fuel done,
      (clean (lineChars (names.map ("global " ++ ·)) ++ rest) ⟨line, 1⟩).takeAll file
          (fuel + 3 * names.length) done =
        (clean rest ⟨line + names.length, 1⟩).takeAll file fuel (tokens.reverse ++ done) := by
  induction names generalizing line with
  | nil => exact ⟨[], .nil, fun _ _ => rfl⟩
  | cons name names ih =>
      have hName := hNames name List.mem_cons_self
      obtain ⟨tokens, hTokens, hRest⟩ :=
        ih (fun n hn => hNames n (List.mem_cons_of_mem _ hn)) (line + 1)
      let after := lineChars (names.map ("global " ++ ·)) ++ rest
      have hGlobal : IsWord "global".toList :=
        ⟨'g', "lobal".toList, by decide, by decide, List.all_eq_true.1 (by decide)⟩
      obtain ⟨⟨kind, word⟩, column, hKind, hWordLine, hWord⟩ := takeAll_word file hGlobal []
        (by simp) ' ' (by decide) (name.toList ++ '\n' :: after) line 1
      obtain ⟨⟨kind', ident⟩, column', hKind', hIdentLine, hIdent⟩ := takeAll_word file
        hName.word [' '] (List.forall_mem_singleton.2 rfl) '\n' (by decide) after line column
      obtain ⟨⟨kind'', lineEnd⟩, hKind'', hEndLine, hEnd⟩ :=
        takeAll_newline file after line column'
      obtain rfl : kind = .mark (.keyword .globalWord) := by
        have hSpelled : (Lexeme.word "global".toList).kind =
            some (.mark (.keyword .globalWord)) := by decide
        exact Option.some.inj (hKind.symm.trans hSpelled)
      obtain rfl : kind' = .name name := Option.some.inj (hKind'.symm.trans (kind_word hName))
      obtain rfl : kind'' = .mark .newline := hKind''
      refine ⟨⟨_, word⟩ :: ⟨_, ident⟩ :: ⟨_, lineEnd⟩ :: tokens,
        .cons hWordLine hIdentLine hEndLine hTokens, fun fuel done => ?_⟩
      have hChars : lineChars ((name :: names).map ("global " ++ ·)) ++ rest =
          [] ++ ("global".toList ++ ' ' :: (name.toList ++ '\n' :: after)) := by
        simp [lineChars, after]
      have hFuel : fuel + 3 * (name :: names).length = fuel + 3 * names.length + 2 + 1 := by
        rw [List.length_cons]
        omega
      have hLine : line + (name :: names).length = line + 1 + names.length := by
        rw [List.length_cons]
        omega
      rw [hChars, hFuel, hWord]
      refine (hIdent _ _).trans ((hEnd _ _).trans ?_)
      rw [hRest, hLine]
      simp

/-- The whole preamble is read, up to the lines behind it. -/
theorem takeAll_preamble (file : SourceFile) {comment : List Char} (hComment : '\n' ∉ comment)
    {names : List String} (hNames : ∀ name ∈ names, IsGlobalName name) (rest : List Char) :
    ∃ (lineEnd : Span) (tokens : List Token), lineEnd.start.line = 1 ∧ Declare 2 names tokens ∧
      ∀ fuel,
      (clean ('#' :: comment ++ '\n' :: (lineChars (names.map ("global " ++ ·)) ++ rest))
          .origin).takeAll file (fuel + 3 * names.length + 1) [] =
        (clean rest ⟨names.length + 2, 1⟩).takeAll file fuel
          (⟨.mark .newline, lineEnd⟩ :: tokens).reverse := by
  obtain ⟨⟨kind, lineEnd⟩, rfl, hLine, hFirst⟩ := takeAll_comment file hComment
    (lineChars (names.map ("global " ++ ·)) ++ rest) 1 1
  obtain ⟨tokens, hTokens, hGlobals⟩ := takeAll_globals file hNames rest 2
  refine ⟨lineEnd, tokens, hLine, hTokens, fun fuel => ?_⟩
  refine (hFirst _ _).trans ((hGlobals _ _).trans ?_)
  rw [List.reverse_cons, Nat.add_comm 2]

end Scan

/-- The text of a script, up to the lines behind its preamble. -/
def preambleChars (comment : List Char) (names : List String) : List Char :=
  '#' :: comment ++ '\n' :: Scan.lineChars (names.map ("global " ++ ·))

/-- Where the lines behind a preamble start. -/
def bodyPlace (names : List String) (rest : List Char) : Place := ⟨⟨names.length + 2, 1⟩, rest⟩

/-- Declarations are longer than they have tokens. -/
theorem length_globals_le (names : List String) :
    3 * names.length ≤ (Scan.lineChars (names.map ("global " ++ ·))).length := by
  induction names with
  | nil => exact Nat.zero_le _
  | cons name names ih =>
      have hLine : ("global " ++ name).toList.length = 7 + name.toList.length := by
        rw [String.toList_append, List.length_append]
        rfl
      rw [Scan.lineChars] at ih ⊢
      rw [List.map_cons, List.flatMap_cons, List.length_append, List.length_append, hLine]
      simp only [List.length_cons, List.length_nil]
      omega

open Scan in
/-- The tokens of a script are those of its preamble, and tokens behind it. -/
theorem tokens_preamble {file : SourceFile} {comment rest : List Char} (hComment : '\n' ∉ comment)
    {names : List String} (hNames : ∀ name ∈ names, IsGlobalName name)
    (hText : file.text.toList = preambleChars comment names ++ rest) :
    ∃ lineEnd declared more, lineEnd.start.line = 1 ∧ Declare 2 names declared ∧
      (tokens file).1 = ⟨.mark .newline, lineEnd⟩ :: declared ++ more ∧
      TokensStand (bodyPlace names rest) more ∧
      ReportStands (bodyPlace names rest) (tokens file).2 := by
  have hLength : 3 * names.length ≤ file.text.toList.length := by
    have hGlobals := length_globals_le names
    rw [hText, preambleChars]
    simp only [List.length_append, List.length_cons]
    omega
  obtain ⟨lineEnd, declared, hLine, hDeclared, hRead⟩ := takeAll_preamble file hComment hNames rest
  obtain ⟨fuel, hFuel⟩ : ∃ fuel, 2 * file.text.toList.length + 2 =
      fuel + 3 * names.length + 1 := ⟨2 * file.text.toList.length + 1 - 3 * names.length, by omega⟩
  have hTokens : tokens file = (clean rest ⟨names.length + 2, 1⟩).takeAll file fuel
      (⟨.mark .newline, lineEnd⟩ :: declared).reverse := by
    rw [← hRead fuel, ← hFuel]
    unfold tokens
    dsimp only
    rw [hText, preambleChars, List.append_assoc]
    rfl
  have hSound : (clean rest ⟨names.length + 2, 1⟩).Sound (bodyPlace names rest) :=
    .of_holes (.refl _) (reportStands_empty _) (by simp [clean])
  obtain ⟨⟨more, position, hEq, hPosition, hMore⟩, hReport⟩ :=
    hSound.takeAll file fuel (⟨.mark .newline, lineEnd⟩ :: declared).reverse
  rw [← hTokens] at hEq hReport
  rw [List.reverse_reverse, List.append_assoc] at hEq
  exact ⟨lineEnd, declared, _, hLine, hDeclared, hEq, ⟨more, position, rfl, hPosition, hMore⟩,
    hReport⟩

namespace Cursor

/-- Line ends are passed over only once. -/
theorem skipNewlines_passNewlines (previous : Option Span) (current : Token)
    (upcoming : List Token) :
    (passNewlines previous current upcoming).skipNewlines =
      passNewlines previous current upcoming := by
  induction upcoming generalizing previous current with
  | nil => rfl
  | cons t ts ih =>
      unfold passNewlines
      split
      next => exact ih _ _
      next hKind =>
        rw [skipNewlines, passNewlines, if_neg hKind]

end Cursor

namespace Grammar

open Rule

/-- A declaration of a global is read with its line end. -/
theorem globalsStatement_eq (file : SourceFile) (previous : Option Span) {name : String}
    (word ident lineEnd : Span) (rest : List Token) (report : Report) (depth : Nat) :
    ∃ span, globalsStatement ⟨file, ⟨previous, ⟨.mark (.keyword .globalWord), word⟩,
        ⟨.name name, ident⟩ :: ⟨.mark .newline, lineEnd⟩ :: rest⟩, report, depth⟩ =
      .ok (.globals span [⟨name, ident⟩]) ⟨file,
        .passNewlines (some ident) ⟨.mark .newline, lineEnd⟩ rest, report, depth⟩ :=
  ⟨_, rfl⟩

/-- At the top level a statement is read with the line ends behind it. -/
theorem topLevel_statement {rule : Rule Stmt} {r r' : Reading} {stmt : Stmt}
    (hEnd : r.cursor.current.kind ≠ .mark .endOfInput) (hFull : r.report.isFull = false)
    (hBrace : r.cursor.current.kind ≠ .mark (.symbol .rightBrace)) (hRule : rule r = .ok stmt r')
    (fuel : Nat) (found : List Stmt) :
    topLevel rule (fuel + 1) found r =
      topLevel rule fuel (found ++ [stmt]) { r' with cursor := r'.cursor.skipNewlines } := by
  have hTry : orElseNone rule r = .ok (some stmt) r' := by rw [orElseNone, hRule]
  have hAt : ∀ mark, r.cursor.current.kind ≠ .mark mark → at? mark r = .ok false r := by
    intro mark hMark
    change EStateM.Result.ok (decide (r.cursor.current.kind = .mark mark)) r = _
    rw [decide_eq_false hMark]
  have hNotFull : isFull r = .ok false r := congrArg (EStateM.Result.ok · r) hFull
  have hSkip : skipNewlines r' = .ok () { r' with cursor := r'.cursor.skipNewlines } := rfl
  conv_lhs => unfold topLevel
  simp only [bind, EStateM.bind, Pure.pure, hAt _ hEnd, hAt _ hBrace, hNotFull, hTry, hSkip,
    Bool.or_self, Bool.false_eq_true, if_false, Option.isNone_some, Option.toList_some]

/-- At the top level a declaration of a global is one statement. -/
theorem topLevel_global (file : SourceFile) (previous : Option Span) {name : String}
    (word ident lineEnd : Span) (rest : List Token) (level fuel : Nat) (found : List Stmt) :
    ∃ span, topLevel (statement (level + 1)) (fuel + 1) found
        ⟨file, ⟨previous, ⟨.mark (.keyword .globalWord), word⟩,
          ⟨.name name, ident⟩ :: ⟨.mark .newline, lineEnd⟩ :: rest⟩, {}, 0⟩ =
      topLevel (statement (level + 1)) fuel (found ++ [.globals span [⟨name, ident⟩]])
        ⟨file, .passNewlines (some ident) ⟨.mark .newline, lineEnd⟩ rest, {}, 0⟩ := by
  obtain ⟨span, hRead⟩ :=
    globalsStatement_eq file previous word ident lineEnd rest {} 0
  have hStatement : statement (level + 1) ⟨file, ⟨previous, ⟨.mark (.keyword .globalWord), word⟩,
      ⟨.name name, ident⟩ :: ⟨.mark .newline, lineEnd⟩ :: rest⟩, {}, 0⟩ = _ := hRead
  refine ⟨span, (topLevel_statement (by simp) rfl (by simp) hStatement fuel found).trans ?_⟩
  rw [Cursor.skipNewlines_passNewlines]

/-- The statement declares this one name global. -/
def DeclaresGlobal (name : String) (s : Stmt) : Prop :=
  ∃ span ident, s = .globals span [⟨name, ident⟩]

theorem isGlobals_of_declaresGlobal {names : List String} {globals : List Stmt}
    (h : List.Forall₂ DeclaresGlobal names globals) : ∀ s ∈ globals, s.isGlobals = true := by
  induction h with
  | nil => exact nofun
  | cons hFirst _ ih =>
      obtain ⟨span, ident, rfl⟩ := hFirst
      exact List.forall_mem_cons.2 ⟨rfl, ih⟩

/-- The declarations of a preamble are read as statements, up to the line ends in front of what
comes next. -/
theorem topLevel_globals {line : Nat} {names : List String} {declared : List Token}
    (h : Scan.Declare line names declared) (file : SourceFile) (previous : Option Span)
    (lineEnd : Span) (rest : List Token) (level fuel : Nat) (found : List Stmt) :
    ∃ globals previous' lineEnd', List.Forall₂ DeclaresGlobal names globals ∧
      topLevel (statement (level + 1)) (fuel + names.length) found
          ⟨file, .passNewlines previous ⟨.mark .newline, lineEnd⟩ (declared ++ rest), {}, 0⟩ =
        topLevel (statement (level + 1)) fuel (found ++ globals)
          ⟨file, .passNewlines previous' ⟨.mark .newline, lineEnd'⟩ rest, {}, 0⟩ := by
  induction h generalizing previous lineEnd found with
  | nil => exact ⟨[], previous, lineEnd, .nil, by rw [List.append_nil]; rfl⟩
  | @cons line name names word ident lineEnd' tokens _ _ _ hRest ih =>
      obtain ⟨span, hFirst⟩ := topLevel_global file (some lineEnd) word ident lineEnd'
        (tokens ++ rest) level (fuel + names.length) found
      obtain ⟨globals, previous', lineEnd'', hGlobals, hMore⟩ :=
        ih (some ident) lineEnd' (found ++ [.globals span [⟨name, ident⟩]])
      refine ⟨.globals span [⟨name, ident⟩] :: globals, previous', lineEnd'',
        .cons ⟨span, ident, rfl⟩ hGlobals, hFirst.trans (hMore.trans ?_)⟩
      rw [List.append_assoc]
      rfl

/-- There are rounds enough for the declarations of a preamble. -/
theorem length_le_upcoming {line : Nat} {names : List String} {declared : List Token}
    (h : Scan.Declare line names declared) (previous : Option Span) (lineEnd : Span)
    (rest : List Token) :
    names.length ≤ (Cursor.passNewlines previous ⟨.mark .newline, lineEnd⟩
      (declared ++ rest)).upcoming.length := by
  have hLength := h.length_eq
  cases h with
  | nil => exact Nat.zero_le _
  | @cons _ name names word ident lineEnd' tokens _ _ _ hRest =>
      let upcoming : List Token :=
        ⟨.name name, ident⟩ :: ⟨.mark .newline, lineEnd'⟩ :: (tokens ++ rest)
      have hUpcoming : upcoming.length = tokens.length + rest.length + 2 := by simp [upcoming]
      change (name :: names).length ≤ upcoming.length
      simp only [List.length_cons] at hLength ⊢
      omega

/-- A script is read to its end. What it declares in its preamble comes first, and the rest is of
the text behind it. -/
theorem program_preamble {line : Nat} {names : List String} {declared more : List Token}
    {a : Place} (hDeclared : Scan.Declare line names declared) (hMore : TokensStand a more)
    (file : SourceFile) (lineEnd : Span) (level : Nat) :
    ∃ program r, Grammar.program (level + 1)
        ⟨file, .ofTokens (⟨.mark .newline, lineEnd⟩ :: declared ++ more), {}, 0⟩ = .ok program r ∧
      ReportStands a r.report ∧ ∃ globals own, program.stmts = globals ++ own ∧
        List.Forall₂ DeclaresGlobal names globals ∧ ∀ s ∈ own, (Node.stmt s).Stands a := by
  let start : Cursor := .passNewlines none ⟨.mark .newline, lineEnd⟩ (declared ++ more)
  have hEnough : names.length ≤ start.upcoming.length :=
    length_le_upcoming hDeclared none lineEnd more
  obtain ⟨fuel, hFuel⟩ : ∃ fuel, start.upcoming.length + maxProblems + 2 = fuel + names.length :=
    ⟨start.upcoming.length + maxProblems + 2 - names.length, by omega⟩
  obtain ⟨globals, previous, lineEnd', hGlobals, hRead⟩ :=
    topLevel_globals hDeclared file none lineEnd more level fuel []
  rw [List.nil_append] at hRead
  let behind : Reading := ⟨file, .passNewlines previous ⟨.mark .newline, lineEnd'⟩ more, {}, 0⟩
  have hBehind : behind.Stands a false := by
    refine ⟨?_, reportStands_empty a⟩
    cases more with
    | nil =>
        obtain ⟨_, _, hEq, -⟩ := hMore
        simp at hEq
    | cons t ts =>
        have hNext : Cursor.Stands a false ⟨some lineEnd', t, ts⟩ := ⟨hMore, nofun⟩
        exact show (Cursor.passNewlines (some lineEnd') t ts).Stands a false from
          Cursor.stands_passNewlines hNext
  obtain ⟨stmts, r, hRun⟩ := Finishes.topLevel (statement (level + 1)) fuel globals behind
  have hOutcome :=
    ReadsOn.topLevel (ReadsOn.rulesYield a (level + 1)).statement fuel globals behind hBehind
  rw [hRun] at hOutcome
  obtain ⟨hReading, own, rfl, hOwn⟩ := hOutcome
  have hTop : topLevel (statement (level + 1)) (start.upcoming.length + maxProblems + 2) []
      ⟨file, start, {}, 0⟩ = .ok (globals ++ own) r := by
    rw [hFuel]
    exact hRead.trans hRun
  refine ⟨⟨start.current.span.merge (r.cursor.previous.getD (.point .origin)),
    globals ++ own⟩, r, ?_, hReading.report, globals, own, rfl, hGlobals, hOwn⟩
  change EStateM.bind (topLevel (statement (level + 1))
    (start.upcoming.length + maxProblems + 2) []) _ ⟨file, start, {}, 0⟩ = _
  rw [EStateM.bind, hTop]
  rfl

end Grammar

/-- Adding problems that stand in the source keeps a report within the source. -/
theorem ReportStands.pushAll {a : Place} {r : Report} (h : ReportStands a r) {ps : List Problem}
    (hProblems : ∀ p ∈ ps, a.HasPosition p.span.start) : ReportStands a (ps.foldl .push r) := by
  induction ps generalizing r with
  | nil => exact h
  | cons p ps ih =>
      exact ih (h.push (hProblems p List.mem_cons_self))
        fun q hq => hProblems q (List.mem_cons_of_mem _ hq)

theorem hasProblems_pushAll {r : Report} (h : r.hasProblems = true) (ps : List Problem) :
    (ps.foldl Report.push r).hasProblems = true := by
  induction ps generalizing r with
  | nil => exact h
  | cons p ps ih => exact ih (by simp [Report.push, Report.hasProblems])

/-- A report that has a problem keeps one, since it drops problems only when its bound is
reached. -/
theorem ReportStands.kept_ne_nil {a : Place} {r : Report} (h : ReportStands a r)
    (hProblems : r.hasProblems = true) : r.kept ≠ [] := by
  intro hNone
  rw [Report.hasProblems, h.counted hNone] at hProblems
  cases hProblems

/-- What comes of reading a script: there is a problem or a program, all problems are in the lines
behind the preamble, and the statements of the preamble come before all others, which are in these
lines, too. -/
structure Parsed.Stands (names : List String) (a : Place) (parsed : Parsed) : Prop where
  report : ReportStands a parsed.report
  problem : parsed.program = none → parsed.report.kept ≠ []
  program : ∀ program ∈ parsed.program, ∃ globals own, program.stmts = globals ++ own ∧
    List.Forall₂ Grammar.DeclaresGlobal names globals ∧ ∀ s ∈ own, (Node.stmt s).Stands a

/-- A statement that declares no globals is behind the preamble. -/
theorem Parsed.Stands.of_mem {names : List String} {a : Place} {parsed : Parsed}
    (h : parsed.Stands names a) {program : Program} (hProgram : parsed.program = some program)
    {s : Stmt} (hs : s ∈ program.stmts) (hKind : s.isGlobals = false) : (Node.stmt s).Stands a := by
  obtain ⟨globals, own, hStmts, hGlobals, hOwn⟩ := h.program program hProgram
  rw [hStmts, List.mem_append] at hs
  rcases hs with hs | hs
  · rw [Grammar.isGlobals_of_declaresGlobal hGlobals s hs] at hKind
    cases hKind
  · exact hOwn s hs

section

variable {file : SourceFile} {comment rest : List Char} {names : List String}

/-- The grammar finds no problem in the preamble. -/
theorem stands_parseTokens (hComment : '\n' ∉ comment)
    (hNames : ∀ name ∈ names, Scan.IsGlobalName name)
    (hText : file.text.toList = preambleChars comment names ++ rest) :
    (parseTokens file (tokens file).1).Stands names (bodyPlace names rest) := by
  obtain ⟨lineEnd, declared, more, -, hDeclared, hTokens, hMore, -⟩ :=
    tokens_preamble hComment hNames hText
  obtain ⟨program, r, hRun, hReport, hProgram⟩ :=
    Grammar.program_preamble hDeclared hMore file lineEnd (8 * (tokens file).1.length + 7)
  rw [← hTokens] at hRun
  have hParsed : parseTokens file (tokens file).1 =
      ⟨if r.report.hasProblems then none else some program, r.report⟩ := by
    rw [parseTokens, hRun]
  rw [hParsed]
  refine ⟨hReport, fun hNone => hReport.kept_ne_nil ?_, fun p hp => ?_⟩
  · by_contra hClean
    rw [if_neg hClean] at hNone
    cases hNone
  · split at hp
    next => cases hp
    next => exact Option.some.inj hp ▸ hProgram

/-- Reading a script whose text starts with a preamble gives the declarations of its globals first,
and then the body at its place. -/
theorem stands_parse (hComment : '\n' ∉ comment)
    (hNames : ∀ name ∈ names, Scan.IsGlobalName name)
    (hText : file.text.toList = preambleChars comment names ++ rest) :
    (parse file).Stands names (bodyPlace names rest) := by
  have hParsed := stands_parseTokens hComment hNames hText
  obtain ⟨-, -, -, -, -, -, -, hFaults⟩ := tokens_preamble hComment hNames hText
  unfold parse
  dsimp only
  split
  next hFaulty =>
    have hAll := hFaults.pushAll hParsed.report.kept
    exact ⟨hAll, fun _ => hAll.kept_ne_nil (hasProblems_pushAll hFaulty _), nofun⟩
  next => exact hParsed

end

end Metagen.Script
