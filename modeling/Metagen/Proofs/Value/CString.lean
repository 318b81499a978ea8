import Metagen.Value.Render
import Mathlib.Data.List.Basic

/-! Texts as C strings. A literal is read by the rules of C, where an escape takes as many octal
digits as there are, but three at most. What is written for a text is read as that text again,
whatever its characters and in whatever order they come. -/

namespace Metagen.CString

/-- What a character stands for behind a backslash, if the two are a simple escape. -/
def simpleEscape? : Char → Option Char
  | '\'' => some '\''
  | '"' => some '"'
  | '?' => some '?'
  | '\\' => some '\\'
  | 'a' => some '\x07'
  | 'b' => some '\x08'
  | 'f' => some '\x0c'
  | 'n' => some '\n'
  | 'r' => some '\r'
  | 't' => some '\t'
  | 'v' => some '\x0b'
  | _ => none

def isOctal (c : Char) : Bool := '0' ≤ c && c ≤ '7'

/-- The digits of an octal escape: the longest match of at most three. -/
def octalDigits (cs : List Char) : List Char := (cs.take 3).takeWhile isOctal

def octalValue (digits : List Char) : Nat :=
  digits.foldl (fun n digit => 8 * n + (digit.toNat - '0'.toNat)) 0

/-- An escape, behind its backslash: the character that it stands for, and its length. -/
def escape? (cs : List Char) : Option (Char × Nat) :=
  match cs.head?.bind simpleEscape? with
  | some c => some (c, 1)
  | none =>
    let digits := octalDigits cs
    if digits.isEmpty then none else some (.ofNat (octalValue digits), digits.length)

/-- The text of a literal up to its closing quote, and what is behind that one. There is none if the
literal is not closed, runs over the end of its line, or has an escape that stands for nothing. -/
def readBody : List Char → Option (List Char × List Char)
  | [] => none
  | c :: cs =>
    if c == '"' then some ([], cs)
    else if c == '\n' then none
    else if c == '\\' then
      match escape? cs with
      | none => none
      | some (d, length) =>
        (readBody (cs.drop length)).map fun (text, behind) => (d :: text, behind)
    else (readBody cs).map fun (text, behind) => (c :: text, behind)
  termination_by cs => cs.length
  decreasing_by all_goals simp; try omega

/-- A C string literal, and nothing else. -/
def read? (literal : String) : Option String :=
  match literal.toList with
  | '"' :: cs =>
    match readBody cs with
    | some (text, []) => some (.ofList text)
    | _ => none
  | _ => none

variable {c d : Char} {cs : List Char} {n : Nat}

theorem readBody_quote (cs : List Char) : readBody ('"' :: cs) = some ([], cs) := by
  rw [readBody]
  rfl

theorem readBody_escape (h : escape? cs = some (d, n)) : readBody ('\\' :: cs) =
    (readBody (cs.drop n)).map fun (text, behind) => (d :: text, behind) := by
  rw [readBody]
  simp [h]

theorem readBody_plain (hQuote : c ≠ '"') (hFeed : c ≠ '\n') (hBackslash : c ≠ '\\') :
    readBody (c :: cs) = (readBody cs).map fun (text, behind) => (c :: text, behind) := by
  rw [readBody]
  simp [hQuote, hFeed, hBackslash]

theorem escape?_simple (h : simpleEscape? c = some d) (cs : List Char) :
    escape? (c :: cs) = some (d, 1) := by
  simp [escape?, h]

/-- A digit below eight, as it is written and as it is read. -/
theorem digitChar_octal : ∀ k < 8, isOctal k.digitChar = true ∧
    k.digitChar.toNat - '0'.toNat = k ∧ simpleEscape? k.digitChar = none := by
  decide

/-- Three octal digits are an escape of their own, also in front of other digits. -/
theorem escape?_octal (h : n < 512) (cs : List Char) :
    escape? ([n / 64, n / 8 % 8, n % 8].map Nat.digitChar ++ cs) = some (.ofNat n, 3) := by
  obtain ⟨hFirst, hFirstValue, hNotSimple⟩ := digitChar_octal (n / 64) (by omega)
  obtain ⟨hSecond, hSecondValue, -⟩ := digitChar_octal (n / 8 % 8) (by omega)
  obtain ⟨hThird, hThirdValue, -⟩ := digitChar_octal (n % 8) (by omega)
  have hDigits : octalDigits ([n / 64, n / 8 % 8, n % 8].map Nat.digitChar ++ cs) =
      [n / 64, n / 8 % 8, n % 8].map Nat.digitChar := by
    simp [octalDigits, hFirst, hSecond, hThird]
  have hValue : octalValue ([n / 64, n / 8 % 8, n % 8].map Nat.digitChar) = n := by
    simp only [octalValue, List.map_cons, List.map_nil, List.foldl_cons, List.foldl_nil,
      hFirstValue, hSecondValue, hThirdValue]
    omega
  have hHead : ([n / 64, n / 8 % 8, n % 8].map Nat.digitChar ++ cs).head?.bind simpleEscape? =
      none := hNotSimple
  rw [escape?, hHead]
  dsimp only
  rw [hDigits, hValue]
  rfl

def IsControl (c : Char) : Prop := c.toNat < 0x20 ∨ c.toNat = 0x7F

/-- How a character is written: as a simple escape, as three octal digits, or as itself. -/
inductive WrittenAs (c : Char) : List Char → Prop where
  | simple {d : Char} (h : simpleEscape? d = some c) : WrittenAs c ['\\', d]
  | octal (h : c.toNat < 512) : WrittenAs c
      ('\\' :: [c.toNat / 64, c.toNat / 8 % 8, c.toNat % 8].map Nat.digitChar)
  | plain (hQuote : c ≠ '"') (hBackslash : c ≠ '\\') (hControl : ¬ IsControl c) : WrittenAs c [c]

/-- Every character is written as a simple escape, as three octal digits, or as itself. -/
theorem writtenAs_cEscape (c : Char) : WrittenAs c (cEscape c) := by
  unfold cEscape
  split
  next h => exact .simple (by rw [eq_of_beq h]; rfl)
  next hQuote =>
  split
  next h => exact .simple (by rw [eq_of_beq h]; rfl)
  next hBackslash =>
  split
  next h => exact .simple (by rw [eq_of_beq h]; rfl)
  next =>
  split
  next h => exact .simple (by rw [eq_of_beq h]; rfl)
  next =>
  split
  next h => exact .simple (by rw [eq_of_beq h]; rfl)
  next =>
  split
  next h =>
    rw [Bool.or_eq_true, decide_eq_true_eq, beq_iff_eq] at h
    exact .octal (by omega)
  next h =>
    rw [Bool.or_eq_true, decide_eq_true_eq, beq_iff_eq] at h
    exact .plain (by simpa using hQuote) (by simpa using hBackslash) h

/-- What is written for a character is read as that character. -/
theorem WrittenAs.readBody_append {written : List Char} (h : WrittenAs c written)
    (cs : List Char) : readBody (written ++ cs) =
      (readBody cs).map fun (text, behind) => (c :: text, behind) := by
  cases h with
  | simple h => exact readBody_escape (escape?_simple h cs)
  | octal h =>
      have hEscape := escape?_octal h cs
      rw [Char.ofNat_toNat] at hEscape
      exact readBody_escape hEscape
  | plain hQuote hBackslash hControl =>
      refine readBody_plain hQuote ?_ hBackslash
      rintro rfl
      exact hControl (.inl (by decide))

/-- What is written for a text is read as that text, up to the quote behind it. -/
theorem readBody_written (text behind : List Char) :
    readBody (text.flatMap cEscape ++ '"' :: behind) = some (text, behind) := by
  induction text with
  | nil => exact readBody_quote behind
  | cons c text ih =>
      rw [List.flatMap_cons, List.append_assoc, (writtenAs_cEscape c).readBody_append, ih,
        Option.map_some]

/-- Each quote is behind a backslash that begins an escape. -/
inductive QuotesEscaped : List Char → Prop where
  | nil : QuotesEscaped []
  | escape (c : Char) {cs : List Char} (h : QuotesEscaped cs) : QuotesEscaped ('\\' :: c :: cs)
  | plain {c : Char} {cs : List Char} (hQuote : c ≠ '"') (hBackslash : c ≠ '\\')
      (h : QuotesEscaped cs) : QuotesEscaped (c :: cs)

/-- Octal digits can stand in front of characters between quotes, since none of them is a quote or a
backslash. -/
theorem QuotesEscaped.digits (h : QuotesEscaped cs) {digits : List Nat}
    (hDigits : ∀ k ∈ digits, k < 8) : QuotesEscaped (digits.map Nat.digitChar ++ cs) := by
  induction digits with
  | nil => exact h
  | cons k digits ih =>
      rw [List.forall_mem_cons] at hDigits
      have hPlain : ∀ k < 8, k.digitChar ≠ '"' ∧ k.digitChar ≠ '\\' := by decide
      exact .plain (hPlain k hDigits.1).1 (hPlain k hDigits.1).2 (ih hDigits.2)

/-- A character as it is written can stand in front of other characters in quotes. -/
theorem WrittenAs.quotesEscaped {written : List Char} (h : WrittenAs c written)
    (hBehind : QuotesEscaped cs) : QuotesEscaped (written ++ cs) := by
  cases h with
  | simple => exact .escape _ hBehind
  | octal =>
      have hDigits : ∀ k ∈ [c.toNat / 8 % 8, c.toNat % 8], k < 8 := by
        simp only [List.forall_mem_cons]
        exact ⟨by omega, by omega, nofun⟩
      exact .escape _ (hBehind.digits hDigits)
  | plain hQuote hBackslash => exact .plain hQuote hBackslash hBehind

/-- The escaped characters of a text can stand between quotes, as every character is written so that
what follows can. -/
theorem quotesEscaped_written (text : List Char) : QuotesEscaped (text.flatMap cEscape) := by
  induction text with
  | nil => exact .nil
  | cons c text ih =>
      rw [List.flatMap_cons]
      exact (writtenAs_cEscape c).quotesEscaped ih

theorem not_isControl_of_simpleEscape? (h : simpleEscape? c = some d) : ¬ IsControl c := by
  unfold simpleEscape? at h
  unfold IsControl
  split at h
  case h_12 => cases h
  all_goals decide

/-- No character is written with a control character in it. -/
theorem WrittenAs.not_isControl {written : List Char} (h : WrittenAs c written) :
    ∀ d ∈ written, ¬ IsControl d := by
  have hBackslash : ¬ IsControl '\\' := by unfold IsControl; decide
  cases h with
  | simple h =>
      simp only [List.forall_mem_cons]
      exact ⟨hBackslash, not_isControl_of_simpleEscape? h, nofun⟩
  | octal h =>
      have hDigit : ∀ k < 8, ¬ IsControl k.digitChar := by unfold IsControl; decide
      simp only [List.map_cons, List.map_nil, List.forall_mem_cons]
      exact ⟨hBackslash, hDigit _ (by omega), hDigit _ (by omega), hDigit _ (by omega), nofun⟩
  | plain hQuote hBackslash hControl =>
      simpa using hControl

/-- The C string of a text is one literal: there are quotes around it, every quote between them is
escaped, it has no control characters, and it is read as the text that it was written for. -/
theorem cString_read (text : String) : ∃ body, (cString text).toList = '"' :: body ++ ['"'] ∧
    QuotesEscaped body ∧ (∀ c ∈ (cString text).toList, ¬ IsControl c) ∧
    read? (cString text) = some text := by
  have hText : (cString text).toList = '"' :: text.toList.flatMap cEscape ++ ['"'] := by
    simp [cString]
  have hQuote : ¬ IsControl '"' := by unfold IsControl; decide
  refine ⟨_, hText, quotesEscaped_written _, ?_, ?_⟩
  · rw [hText]
    intro c hMem
    simp only [List.cons_append, List.mem_cons, List.mem_append, List.mem_flatMap,
      List.not_mem_nil, or_false] at hMem
    rcases hMem with rfl | ⟨d, -, hMem⟩ | rfl
    · exact hQuote
    · exact (writtenAs_cEscape d).not_isControl c hMem
    · exact hQuote
  · have hBody := readBody_written text.toList []
    simp [read?, hText, hBody]

/-- A control character in front of a digit. -/
example : cString "\x012" = "\"\\0012\"" := by decide +kernel

end Metagen.CString
