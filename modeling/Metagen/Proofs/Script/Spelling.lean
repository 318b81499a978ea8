import Metagen.Proofs.Script.Lexer
import Mathlib.Data.List.TakeWhile
import Mathlib.Data.Nat.Digits.Defs

/-! How tokens are written. Code, the marks of holes and the texts of strings are read apart from
each other, and in each of these ways of reading, what is written decides which token it is. -/

namespace Metagen.Script

open Text Numeral Lexeme

def quotes (triple : Bool) : List Char := if triple then ['"', '"', '"'] else ['"']

/-- The text of a string does not go on here: there are its closing quotes, a hole, or the end of
the line if the string has single quotes. -/
def EndsText (triple : Bool) (cs : List Char) : Prop :=
  quotes triple <+: cs ∨ ['$', '{'] <+: cs ∨ triple = false ∧ ['\n'] <+: cs

/-- A text that ends in some characters also ends when more of them follow. -/
theorem EndsText.mono {triple : Bool} {cs ds : List Char} (h : EndsText triple cs)
    (hBegins : cs <+: ds) : EndsText triple ds := by
  rcases h with hQuotes | hHole | ⟨hSingle, hLine⟩
  · exact .inl (hQuotes.trans hBegins)
  · exact .inr (.inl (hHole.trans hBegins))
  · exact .inr (.inr ⟨hSingle, hLine.trans hBegins⟩)

/-- Characters written in a string, and the text they stand for: escapes are decoded, and all else
stands for itself. -/
inductive TextWritten (triple : Bool) : List Char → List Char → Prop where
  | nil : TextWritten triple [] []
  | plain {c : Char} {written meant : List Char} (hEscape : c ≠ '\\')
      (hGoesOn : ¬ EndsText triple (c :: written)) (rest : TextWritten triple written meant) :
      TextWritten triple (c :: written) (c :: meant)
  | escape {e c : Char} {written meant : List Char} (hEscape : escape? e = some c)
      (rest : TextWritten triple written meant) :
      TextWritten triple ('\\' :: e :: written) (c :: meant)

namespace TextWritten

variable {triple : Bool} {written meant meant' : List Char}

/-- What stands for itself stands before a text that goes on. -/
theorem of_cons {c : Char} (h : TextWritten triple (c :: written) meant) (hEscape : c ≠ '\\') :
    ¬ EndsText triple (c :: written) ∧
      ∃ rest, meant = c :: rest ∧ TextWritten triple written rest := by
  cases h with
  | plain _ hGoesOn rest => exact ⟨hGoesOn, _, rfl, rest⟩
  | escape => exact (hEscape rfl).elim

theorem of_escape {e : Char} (h : TextWritten triple ('\\' :: e :: written) meant) :
    ∃ c rest, meant = c :: rest ∧ escape? e = some c ∧ TextWritten triple written rest := by
  cases h with
  | plain hEscape => exact (hEscape rfl).elim
  | escape hEscape rest => exact ⟨_, _, rfl, hEscape, rest⟩

/-- A text means one thing: at each character either an escape starts or it stands for itself. -/
theorem unique (h : TextWritten triple written meant) (h' : TextWritten triple written meant') :
    meant = meant' := by
  induction h generalizing meant' with
  | nil =>
      cases h'
      rfl
  | plain hEscape _ _ ih =>
      obtain ⟨-, rest, rfl, hRest⟩ := h'.of_cons hEscape
      rw [ih hRest]
  | escape hEscape _ ih =>
      obtain ⟨c, rest, rfl, hOther, hRest⟩ := h'.of_escape
      rw [ih hRest, Option.some.inj (hEscape.symm.trans hOther)]

/-- A text does not hold its closing quotes. -/
theorem not_append_quotes (h : TextWritten triple written meant) (more : List Char) :
    ¬ TextWritten triple (written ++ (quotes triple ++ more)) meant' := by
  intro h'
  induction h generalizing meant' with
  | nil =>
      have hEnds : EndsText triple (quotes triple ++ more) := .inl (List.prefix_append _ _)
      cases triple with
      | false => exact (h'.of_cons (by decide)).1 hEnds
      | true => exact (h'.of_cons (by decide)).1 hEnds
  | plain hEscape _ _ ih =>
      obtain ⟨-, rest, -, hRest⟩ := h'.of_cons hEscape
      exact ih hRest
  | escape _ _ ih =>
      obtain ⟨c, rest, -, -, hRest⟩ := h'.of_escape
      exact ih hRest

/-- A string between single quotes does not start like one between triple quotes. -/
theorem ne_of_single {more rest : List Char} (h : TextWritten false written meant)
    (hMore : more = [] ∨ more = quotes false) : written ++ more ≠ '"' :: '"' :: rest := by
  intro hEq
  cases h with
  | nil =>
      rcases hMore with rfl | rfl
      · cases hEq
      · cases hEq
  | plain _ hGoesOn _ =>
      obtain ⟨rfl, -⟩ := List.cons.inj hEq
      exact hGoesOn (.inl (List.prefix_append ['"'] _))
  | escape => cases hEq

/-- Strings in code, closed or not, that are written alike have the same quotes. -/
theorem triple_eq {t t' : Bool} {written' more more' : List Char} (h : TextWritten t written meant)
    (h' : TextWritten t' written' meant') (hMore : more = [] ∨ more = quotes t)
    (hMore' : more' = [] ∨ more' = quotes t')
    (hEq : quotes t ++ (written ++ more) = quotes t' ++ (written' ++ more')) : t = t' := by
  cases t with
  | false =>
      cases t' with
      | false => rfl
      | true => exact (h.ne_of_single hMore (List.cons.inj hEq).2).elim
  | true =>
      cases t' with
      | false => exact (h'.ne_of_single hMore' (List.cons.inj hEq).2.symm).elim
      | true => rfl

end TextWritten

/-- The value of digits of a base, the most significant one first. -/
def digitsValue (base : Nat) (digits : List Char) : Nat :=
  Nat.ofDigits base (digits.reverse.map fun c => (digitValue c).getD 0)

theorem digitsValue_cons (base : Nat) (c : Char) (digits : List Char) :
    digitsValue base (c :: digits) =
      digitsValue base digits + base ^ digits.length * (digitValue c).getD 0 := by
  simp [digitsValue, Nat.ofDigits_append]

/-- Reading digits adds each of them to the value so far times the base. -/
theorem naturalFrom_eq {base value n : Nat} {digits : List Char}
    (h : naturalFrom base value digits = some n) :
    n = value * base ^ digits.length + digitsValue base digits := by
  induction digits generalizing value with
  | nil => simpa [naturalFrom, digitsValue] using h.symm
  | cons c digits ih =>
      rw [naturalFrom] at h
      split at h
      next d hDigit =>
        split at h
        · rw [ih h, digitsValue_cons, hDigit, List.length_cons, pow_succ]
          simp only [Option.getD_some]
          ring
        · cases h
      next => cases h

/-- Digits of a number have no sign before them. -/
theorem takeSign_digitsOnly {digits : List Char} (h : ∀ c ∈ digits, isHexOrGap c = true) :
    takeSign (digitsOnly digits) = (false, digitsOnly digits) := by
  have hDigits : ∀ c ∈ digitsOnly digits, isHexOrGap c = true :=
    fun c hc => h c (List.mem_of_mem_filter hc)
  unfold takeSign
  split
  next hEq => exact absurd (hDigits '-' (by simp [hEq])) (by decide)
  next hEq => exact absurd (hDigits '+' (by simp [hEq])) (by decide)
  next => rfl

/-- A word that was read from digits has their value, and there are some digits. -/
theorem toInt_of_readWord {base : Nat} {digits : List Char} {n : Int64}
    (hDigits : ∀ c ∈ digits, isHexOrGap c = true)
    (h : readWord base (digitsOnly digits) = some n) :
    n.toInt = digitsValue base (digitsOnly digits) ∧ digitsOnly digits ≠ [] := by
  rw [readWord, takeSign_digitsOnly hDigits] at h
  obtain ⟨value, hValue, hFits⟩ := Option.bind_eq_some_iff.1 h
  have hSome : digitsOnly digits ≠ [] := by
    intro hNone
    rw [hNone] at hValue
    cases hValue
  have hNatural : naturalFrom base 0 (digitsOnly digits) = some value := by
    cases hList : digitsOnly digits with
    | nil => exact (hSome hList).elim
    | cons c cs => rwa [hList] at hValue
  refine ⟨?_, hSome⟩
  simp only [Bool.false_eq_true, if_false] at hFits
  rw [fitWord_eq_some_iff.1 hFits, naturalFrom_eq hNatural, Nat.zero_mul, Nat.zero_add]

/-- Digits of a base have a value. -/
theorem exists_naturalFrom (base value : Nat) {digits : List Char}
    (hDigits : ∀ c ∈ digits, ∃ d, digitValue c = some d ∧ d < base) :
    ∃ n, naturalFrom base value digits = some n := by
  induction digits generalizing value with
  | nil => exact ⟨value, rfl⟩
  | cons c digits ih =>
      obtain ⟨d, hDigit, hSmall⟩ := hDigits c List.mem_cons_self
      rw [naturalFrom, hDigit]
      simp only [hSmall, if_true]
      exact ih _ fun c hc => hDigits c (List.mem_cons_of_mem _ hc)

/-- A decimal digit has a value below ten. -/
theorem exists_digitValue {c : Char} (h : c.isDigit = true) :
    ∃ d, digitValue c = some d ∧ d < 10 := by
  refine ⟨c.toNat - '0'.toNat, by simp [digitValue, h], ?_⟩
  simp only [Char.isDigit, Bool.and_eq_true, decide_eq_true_eq] at h
  have hLast : c.toNat ≤ '9'.toNat := h.2
  have hFirst : '0'.toNat ≤ c.toNat := h.1
  simp only [show '9'.toNat = 57 from rfl, show '0'.toNat = 48 from rfl] at *
  omega

theorem toLower_of_isDigit {c : Char} (h : c.isDigit = true) : c.toLower = c := by
  simp only [Char.isDigit, Bool.and_eq_true, decide_eq_true_eq] at h
  unfold Char.toLower
  rw [dif_neg]
  rintro ⟨hUpper, -⟩
  exact absurd (UInt32.le_trans hUpper h.2) (by decide)

/-- A text that starts with a digit is neither a sign nor a word. -/
theorem readFloat_eq_readDecimal {c : Char} (hDigit : c.isDigit = true) (cs : List Char) :
    readFloat (c :: cs) = readDecimal false (c :: cs) := by
  have hSign : takeSign (c :: cs) = (false, c :: cs) := by
    unfold takeSign
    split
    next hEq =>
      obtain ⟨rfl, -⟩ := List.cons.inj hEq
      cases hDigit
    next hEq =>
      obtain ⟨rfl, -⟩ := List.cons.inj hEq
      cases hDigit
    next => rfl
  have hWord : ∀ word : String, word.toList.head? = some 'i' ∨ word.toList.head? = some 'n' →
      (String.ofList ((c :: cs).map Char.toLower) == word) = false := by
    intro word hHead
    rw [beq_eq_false_iff_ne]
    rintro rfl
    rw [String.toList_ofList, List.map_cons, toLower_of_isDigit hDigit, List.head?_cons] at hHead
    rcases hHead with hEq | hEq
    · cases Option.some.inj hEq
      cases hDigit
    · cases Option.some.inj hEq
      cases hDigit
  unfold readFloat
  rw [hSign]
  dsimp only
  rw [hWord "inf" (.inl rfl), hWord "infinity" (.inl rfl), hWord "nan" (.inr rfl)]
  rfl

/-- Digits around a point are a number. -/
theorem exists_readFloat {whole fraction : List Char} (hWhole : ∀ c ∈ whole, c.isDigit = true)
    (hSome : whole ≠ []) (hFraction : ∀ c ∈ fraction, c.isDigit = true) :
    ∃ x, readFloat (whole ++ '.' :: fraction) = some x := by
  obtain ⟨first, more, rfl⟩ := List.exists_cons_of_ne_nil hSome
  have hTaken : ((first :: more) ++ '.' :: fraction).takeWhile Char.isDigit = first :: more := by
    rw [List.takeWhile_append_of_pos hWhole, List.takeWhile_cons_of_neg (by decide),
      List.append_nil]
  have hDropped :
      ((first :: more) ++ '.' :: fraction).dropWhile Char.isDigit = '.' :: fraction := by
    rw [List.dropWhile_append_of_pos hWhole, List.dropWhile_cons_of_neg (by decide)]
  have hTakenLast : fraction.takeWhile Char.isDigit = fraction :=
    List.takeWhile_eq_self_iff.2 hFraction
  have hDroppedLast : fraction.dropWhile Char.isDigit = [] := List.dropWhile_eq_nil_iff.2 hFraction
  obtain ⟨n, hNatural⟩ : ∃ n, natural 10 (first :: more ++ fraction) = some n := by
    have hDigits : ∀ c ∈ first :: more ++ fraction, ∃ d, digitValue c = some d ∧ d < 10 :=
      fun c hc => exists_digitValue ((List.mem_append.1 hc).elim (hWhole c) (hFraction c))
    exact exists_naturalFrom 10 0 hDigits
  rw [List.cons_append, readFloat_eq_readDecimal (hWhole first List.mem_cons_self),
    ← List.cons_append]
  simp only [readDecimal, hTaken, hDropped, hTakenLast, hDroppedLast, hNatural, readExponent]
  exact ⟨_, rfl⟩

/-- A reserved word, or another name. Both are written as they are. -/
inductive WordWritten : List Char → TokenKind → Prop where
  | keyword (word : Keyword) : WordWritten word.spelling.toList (.mark (.keyword word))
  | name {cs : List Char} (hChars : ∀ c ∈ cs, isIdentChar c = true)
      (hFree : ∀ word : Keyword, word.spelling.toList ≠ cs) :
      WordWritten cs (.name (.ofList cs))

/-- What is written as a word is one token: a reserved word or a name. -/
theorem WordWritten.unique {cs : List Char} {kind kind' : TokenKind} (h : WordWritten cs kind)
    (h' : WordWritten cs kind') : kind = kind' := by
  generalize hOther : cs = cs' at h'
  cases h with
  | keyword word =>
      cases h' with
      | keyword word' =>
          have hSpelling : word.spelling = word'.spelling := String.toList_injective hOther
          have hWord : word = word' := by
            revert hSpelling
            cases word <;> cases word' <;> decide
          rw [hWord]
      | name _ hFree => exact (hFree word hOther).elim
  | name _ hFree =>
      cases h' with
      | keyword word' => exact (hFree word' hOther.symm).elim
      | name => rw [hOther]

/-- Digits in decimal or hexadecimal, or digits around a point. Underscores do not count. -/
inductive NumberWritten : List Char → TokenKind → Prop where
  | decimal {digits : List Char} {n : Int64} (hDigits : ∀ c ∈ digits, isDigitOrGap c = true)
      (hValue : n.toInt = digitsValue 10 (digitsOnly digits)) : NumberWritten digits (.int n)
  | hexadecimal {x : Char} {digits : List Char} {n : Int64} (hMark : x = 'x' ∨ x = 'X')
      (hDigits : ∀ c ∈ digits, isHexOrGap c = true) (hSome : digitsOnly digits ≠ [])
      (hValue : n.toInt = digitsValue 16 (digitsOnly digits)) :
      NumberWritten ('0' :: x :: digits) (.int n)
  | point {whole fraction : List Char} {x : Float} (hWhole : ∀ c ∈ whole, isDigitOrGap c = true)
      (hFraction : ∀ c ∈ fraction, isDigitOrGap c = true)
      (hValue : readFloat (digitsOnly (whole ++ '.' :: fraction)) = some x) :
      NumberWritten (whole ++ '.' :: fraction) (.float x)

namespace NumberWritten

/-- A number with a point is neither in decimal nor in hexadecimal. -/
theorem point_notMem {digits : List Char} {p : Char → Bool}
    (hDigits : ∀ c ∈ digits, p c = true) (hPoint : p '.' = false) : '.' ∉ digits := by
  intro hMem
  rw [hDigits '.' hMem] at hPoint
  cases hPoint

theorem mark_ne_point {x : Char} (hMark : x = 'x' ∨ x = 'X') : '.' ≠ x := by
  rcases hMark with rfl | rfl
  · decide
  · decide

/-- A number without a base does not start as one with the base sixteen does. -/
theorem not_decimal_mark {x : Char} {digits cs : List Char} (hMark : x = 'x' ∨ x = 'X')
    (hDigits : ∀ c ∈ digits, isDigitOrGap c = true) : digits ≠ '0' :: x :: cs := by
  rintro rfl
  have hDigit := hDigits x (by simp)
  rcases hMark with rfl | rfl
  · cases hDigit
  · cases hDigit

/-- What is written as a number is one token, an integer or a float. -/
theorem unique {cs : List Char} {kind kind' : TokenKind} (h : NumberWritten cs kind)
    (h' : NumberWritten cs kind') : kind = kind' := by
  generalize hOther : cs = cs' at h'
  cases h with
  | decimal hDigits hValue =>
      cases h' with
      | decimal _ hValue' => rw [Int64.toInt_inj.1 (hValue.trans (hOther ▸ hValue'.symm))]
      | hexadecimal hMark => exact (not_decimal_mark hMark hDigits hOther).elim
      | point =>
          exact (point_notMem hDigits (by decide) (hOther ▸ by simp)).elim
  | hexadecimal hMark hDigits _ hValue =>
      cases h' with
      | decimal hDigits' => exact (not_decimal_mark hMark hDigits' hOther.symm).elim
      | hexadecimal _ _ _ hValue' =>
          obtain ⟨-, hRest⟩ := List.cons.inj hOther
          obtain ⟨-, rfl⟩ := List.cons.inj hRest
          rw [Int64.toInt_inj.1 (hValue.trans hValue'.symm)]
      | @point whole fraction =>
          have hMem : '.' ∈ whole ++ '.' :: fraction := by simp
          rw [← hOther, List.mem_cons, List.mem_cons] at hMem
          rcases hMem with hZero | hPoint | hDigit
          · cases hZero
          · exact (mark_ne_point hMark hPoint).elim
          · exact (point_notMem hDigits (by decide) hDigit).elim
  | point _ _ hValue =>
      cases h' with
      | decimal hDigits' =>
          exact (point_notMem hDigits' (by decide) (hOther ▸ by simp)).elim
      | @hexadecimal x digits _ hMark hDigits' =>
          have hMem : '.' ∈ '0' :: x :: digits := by
            rw [← hOther]
            simp
          rw [List.mem_cons, List.mem_cons] at hMem
          rcases hMem with hZero | hPoint | hDigit
          · cases hZero
          · exact (mark_ne_point hMark hPoint).elim
          · exact (point_notMem hDigits' (by decide) hDigit).elim
      | point _ _ hValue' =>
          rw [hOther] at hValue
          rw [Option.some.inj (hValue.symm.trans hValue')]

end NumberWritten

/-- Quotes and the text of a string up to its closing quotes or its first hole. -/
inductive StringWritten : List Char → TokenKind → Prop where
  | closed {triple : Bool} {written meant : List Char} (hText : TextWritten triple written meant) :
      StringWritten (quotes triple ++ (written ++ quotes triple)) (.text (.ofList meant))
  | opened {triple : Bool} {written meant : List Char} (hText : TextWritten triple written meant) :
      StringWritten (quotes triple ++ written) (.textStart (.ofList meant))

/-- What is written as a string is one token: its quotes and its end tell which. -/
theorem StringWritten.unique {cs : List Char} {kind kind' : TokenKind} (h : StringWritten cs kind)
    (h' : StringWritten cs kind') : kind = kind' := by
  generalize hOther : cs = cs' at h'
  cases h with
  | @closed t written meant hText =>
      cases h' with
      | closed hText' =>
          obtain rfl := hText.triple_eq hText' (.inr rfl) (.inr rfl) hOther
          obtain rfl := List.append_cancel_right (List.append_cancel_left hOther)
          rw [hText.unique hText']
      | @opened t' written' meant' hText' =>
          have hSame : t = t' := hText.triple_eq hText' (.inr rfl) (.inl rfl)
            (by rw [List.append_nil]; exact hOther)
          subst hSame
          have hRest := List.append_cancel_left hOther
          rw [← hRest, ← List.append_nil (quotes t)] at hText'
          exact (hText.not_append_quotes [] hText').elim
  | @opened t written meant hText =>
      cases h' with
      | @closed t' written' meant' hText' =>
          have hSame : t = t' := hText.triple_eq hText' (.inl rfl) (.inr rfl)
            (by rw [List.append_nil]; exact hOther)
          subst hSame
          have hRest := List.append_cancel_left hOther
          rw [hRest, ← List.append_nil (quotes t)] at hText
          exact (hText'.not_append_quotes [] hText).elim
      | @opened t' written' meant' hText' =>
          have hSame : t = t' := hText.triple_eq hText' (.inl rfl) (.inl rfl)
            (by rw [List.append_nil, List.append_nil]; exact hOther)
          subst hSame
          obtain rfl := List.append_cancel_left hOther
          rw [hText.unique hText']

/-- The text of a string behind a hole, up to its closing quotes or its next hole. -/
inductive TextResumed (triple : Bool) : List Char → TokenKind → Prop where
  | closed {written meant : List Char} (hText : TextWritten triple written meant) :
      TextResumed triple (written ++ quotes triple) (.textEnd (.ofList meant))
  | opened {written meant : List Char} (hText : TextWritten triple written meant) :
      TextResumed triple written (.textPart (.ofList meant))

/-- What is written behind a hole is one token: the string ends there, or another hole comes. -/
theorem TextResumed.unique {triple : Bool} {cs : List Char} {kind kind' : TokenKind}
    (h : TextResumed triple cs kind) (h' : TextResumed triple cs kind') : kind = kind' := by
  generalize hOther : cs = cs' at h'
  cases h with
  | closed hText =>
      cases h' with
      | closed hText' =>
          obtain rfl := List.append_cancel_right hOther
          rw [hText.unique hText']
      | opened hText' =>
          rw [← hOther, ← List.append_nil (quotes triple)] at hText'
          exact (hText.not_append_quotes [] hText').elim
  | opened hText =>
      cases h' with
      | closed hText' =>
          rw [hOther, ← List.append_nil (quotes triple)] at hText
          exact (hText'.not_append_quotes [] hText).elim
      | opened hText' =>
          rw [hOther] at hText
          rw [hText.unique hText']

/-- The ways of reading. -/
inductive Stance where
  | code
  /-- The marks around a hole. -/
  | edge
  /-- The text of a string behind a hole. -/
  | text (triple : Bool)
  deriving DecidableEq, Repr

/-- What code at its first character goes on with. -/
def CodeWritten (c : Char) (cs : List Char) (kind : TokenKind) : Prop :=
  if c = '"' then StringWritten (c :: cs) kind
  else if c = '\n' then cs = [] ∧ kind = .mark .newline
  else if c.isDigit then NumberWritten (c :: cs) kind
  else if isIdentStart c then WordWritten (c :: cs) kind
  else ∃ symbol : Symbol, symbol.spelling.toList = c :: cs ∧ kind = .mark (.symbol symbol)

/-- Read in a certain way, the characters are written for a token. -/
def Spelled : Stance → List Char → TokenKind → Prop
  | .code, [], kind => kind = .mark .endOfInput
  | .code, c :: cs, kind => CodeWritten c cs kind
  | .edge, cs, kind => cs = ['$', '{'] ∧ kind = .mark .holeStart ∨
      cs = ['}'] ∧ kind = .mark .holeEnd
  | .text triple, cs, kind => TextResumed triple cs kind

/-- What is written in code is one token: its first character tells of which sort. -/
theorem CodeWritten.unique {c : Char} {cs : List Char} {kind kind' : TokenKind}
    (h : CodeWritten c cs kind) (h' : CodeWritten c cs kind') : kind = kind' := by
  unfold CodeWritten at h h'
  split_ifs at h h' with hQuote hLine hDigit hWord
  · exact h.unique h'
  · exact h.2.trans h'.2.symm
  · exact h.unique h'
  · exact h.unique h'
  · obtain ⟨symbol, hSpelling, rfl⟩ := h
    obtain ⟨symbol', hSpelling', rfl⟩ := h'
    have hSame : symbol.spelling = symbol'.spelling :=
      String.toList_injective (hSpelling.trans hSpelling'.symm)
    have hSymbol : symbol = symbol' := by
      revert hSame
      cases symbol <;> cases symbol' <;> decide
    rw [hSymbol]

/-- What is written decides which token it is. -/
theorem Spelled.unique {stance : Stance} {slice : List Char} {kind kind' : TokenKind}
    (h : Spelled stance slice kind) (h' : Spelled stance slice kind') : kind = kind' := by
  cases stance with
  | code =>
      cases slice with
      | nil => exact Eq.trans h (Eq.symm h')
      | cons c cs => exact CodeWritten.unique h h'
  | edge =>
      rcases h with ⟨hOpens, rfl⟩ | ⟨hCloses, rfl⟩
      · rcases h' with ⟨-, rfl⟩ | ⟨hCloses, -⟩
        · rfl
        · cases hOpens.symm.trans hCloses
      · rcases h' with ⟨hOpens, -⟩ | ⟨-, rfl⟩
        · cases hOpens.symm.trans hCloses
        · rfl
  | text triple => exact TextResumed.unique h h'

namespace Lexeme

/-- Unless the lexeme has a fault, it takes characters of the code that are written for its
token. -/
def TakesWritten (written : List Char → TokenKind → Prop) (cs : List Char) (l : Lexeme) : Prop :=
  l.fault = none → 0 < l.length ∧ ∃ kind, l.kind = some kind ∧ written (cs.take l.length) kind

/-- A lexeme takes what is written if it is as long as what it takes. -/
theorem TakesWritten.of_eq {written : List Char → TokenKind → Prop} {cs taken rest : List Char}
    {kind : TokenKind} {l : Lexeme} (hCode : cs = taken ++ rest) (hSome : taken ≠ [])
    (hLength : l.length = taken.length) (hKind : l.kind = some kind)
    (hWritten : written taken kind) : l.TakesWritten written cs := by
  intro _
  refine ⟨?_, kind, hKind, ?_⟩
  · rw [hLength]
    exact List.length_pos_of_ne_nil hSome
  · rw [hLength, hCode, List.take_left]
    exact hWritten

/-- An integer with a base takes its digits, and means the number that is written in them. -/
theorem takesWritten_integer {base : Nat} {cs taken digits rest : List Char}
    (hCode : cs = taken ++ rest)
    (hSome : taken ≠ [])
    (hValue : ∀ n, readWord base (digitsOnly digits) = some n → NumberWritten taken (.int n)) :
    (integer base taken digits).TakesWritten NumberWritten cs := by
  unfold integer
  split
  next n hRead => exact .of_eq hCode hSome rfl rfl (hValue n hRead)
  next =>
    intro hFault
    cases hFault

theorem isHexOrGap_of_isDigitOrGap {c : Char} (h : isDigitOrGap c = true) :
    isHexOrGap c = true := by
  rcases Bool.or_eq_true_iff.1 h with hDigit | hGap
  · obtain ⟨d, hValue, hSmall⟩ := exists_digitValue hDigit
    simp only [isHexOrGap, hValue, Option.any_some, Bool.or_eq_true, decide_eq_true_eq]
    omega
  · exact Bool.or_eq_true_iff.2 (.inr hGap)

/-- Without the underscores, only digits are left of decimal digits and underscores. -/
theorem isDigit_of_mem_digitsOnly {digits : List Char}
    (hDigits : ∀ c ∈ digits, isDigitOrGap c = true) :
    ∀ c ∈ digitsOnly digits, c.isDigit = true := by
  intro c hMem
  obtain ⟨hDigit, hNoGap⟩ := List.mem_filter.1 hMem
  rcases Bool.or_eq_true_iff.1 (hDigits c hDigit) with hDigit | hGap
  · exact hDigit
  · simp [eq_of_beq hGap] at hNoGap

/-- A decimal number takes what is written for it: digits, or digits around a point. -/
theorem takesWritten_decimal {c : Char} (hDigit : c.isDigit = true) (cs : List Char) :
    (decimal (c :: cs)).TakesWritten NumberWritten (c :: cs) := by
  have hFirst : isDigitOrGap c = true := Bool.or_eq_true_iff.2 (.inl hDigit)
  have hWhole : ∀ d ∈ (c :: cs).takeWhile isDigitOrGap, isDigitOrGap d = true :=
    fun d hd => List.mem_takeWhile_imp hd
  have hSome : (c :: cs).takeWhile isDigitOrGap ≠ [] := by
    rw [List.takeWhile_cons_of_pos hFirst]
    exact List.cons_ne_nil _ _
  have hCode : c :: cs = (c :: cs).takeWhile isDigitOrGap ++ (c :: cs).dropWhile isDigitOrGap :=
    List.takeWhile_append_dropWhile.symm
  have hInteger : (integer 10 ((c :: cs).takeWhile isDigitOrGap)
      ((c :: cs).takeWhile isDigitOrGap)).TakesWritten NumberWritten (c :: cs) := by
    refine takesWritten_integer hCode hSome fun n hRead => .decimal hWhole ?_
    exact (toInt_of_readWord (fun d hd => isHexOrGap_of_isDigitOrGap (hWhole d hd)) hRead).1
  unfold decimal
  dsimp only
  split
  next d more hRest =>
    split
    next hPoint =>
      have hFraction : ∀ e ∈ (d :: more).takeWhile isDigitOrGap, isDigitOrGap e = true :=
        fun e he => List.mem_takeWhile_imp he
      have hClean : digitsOnly ((c :: cs).takeWhile isDigitOrGap ++
          '.' :: (d :: more).takeWhile isDigitOrGap) =
          digitsOnly ((c :: cs).takeWhile isDigitOrGap) ++
            '.' :: digitsOnly ((d :: more).takeWhile isDigitOrGap) := by
        simp [digitsOnly]
      have hLeft : digitsOnly ((c :: cs).takeWhile isDigitOrGap) ≠ [] := by
        have hNoGap : (c != '_') = true := by
          rw [bne_iff_ne]
          rintro rfl
          cases hDigit
        rw [List.takeWhile_cons_of_pos hFirst, digitsOnly,
          List.filter_cons_of_pos (p := (· != '_')) hNoGap]
        exact List.cons_ne_nil _ _
      obtain ⟨x, hValue⟩ := exists_readFloat (isDigit_of_mem_digitsOnly hWhole) hLeft
        (isDigit_of_mem_digitsOnly hFraction)
      rw [← hClean] at hValue
      have hWritten : c :: cs = ((c :: cs).takeWhile isDigitOrGap ++
          '.' :: (d :: more).takeWhile isDigitOrGap) ++ (d :: more).dropWhile isDigitOrGap := by
        rw [List.append_assoc, List.cons_append, List.takeWhile_append_dropWhile, ← hRest]
        exact hCode
      have hKind : (some (.float ((readFloat (digitsOnly ((c :: cs).takeWhile isDigitOrGap ++
          '.' :: (d :: more).takeWhile isDigitOrGap))).getD 0.0)) : Option TokenKind) =
          some (.float x) := by
        rw [hValue]
        rfl
      exact .of_eq hWritten (by simp) rfl hKind (.point hWhole hFraction hValue)
    next => exact hInteger
  next => exact hInteger

/-- A number takes what is written, in the base that its prefix says. -/
theorem takesWritten_number {c : Char} (hDigit : c.isDigit = true) (cs : List Char) :
    (number (c :: cs)).TakesWritten NumberWritten (c :: cs) := by
  unfold number
  split
  next x more hEq =>
    split
    next hMark =>
      obtain ⟨rfl, rfl⟩ := List.cons.inj hEq
      have hDigits : ∀ d ∈ more.takeWhile isHexOrGap, isHexOrGap d = true :=
        fun d hd => List.mem_takeWhile_imp hd
      have hCode : '0' :: x :: more =
          ('0' :: x :: more.takeWhile isHexOrGap) ++ more.dropWhile isHexOrGap := by
        simp [List.takeWhile_append_dropWhile]
      refine takesWritten_integer hCode (List.cons_ne_nil _ _) fun n hRead => ?_
      obtain ⟨hValue, hSome⟩ := toInt_of_readWord hDigits hRead
      exact .hexadecimal (by simpa using hMark) hDigits hSome hValue
    next =>
      rw [← hEq]
      exact takesWritten_decimal hDigit cs
  next => exact takesWritten_decimal hDigit cs

/-- A word takes all characters that can belong to it. -/
theorem takesWritten_word {c : Char} (hStart : isIdentStart c = true) (cs : List Char) :
    (word (c :: cs)).TakesWritten WordWritten (c :: cs) := by
  have hFirst : isIdentChar c = true := by
    simp only [isIdentStart, isIdentChar, Char.isAlphanum, Bool.or_eq_true] at hStart ⊢
    exact hStart.elim (fun hAlpha => .inl (.inl hAlpha)) .inr
  have hChars : ∀ d ∈ (c :: cs).takeWhile isIdentChar, isIdentChar d = true :=
    fun d hd => List.mem_takeWhile_imp hd
  have hSome : (c :: cs).takeWhile isIdentChar ≠ [] := by
    rw [List.takeWhile_cons_of_pos hFirst]
    exact List.cons_ne_nil _ _
  have hCode : c :: cs = (c :: cs).takeWhile isIdentChar ++ (c :: cs).dropWhile isIdentChar :=
    List.takeWhile_append_dropWhile.symm
  unfold word
  refine .of_eq hCode hSome (by simp) rfl ?_
  split
  next reserved hReserved =>
    have hSpelling : reserved.spelling = String.ofList ((c :: cs).takeWhile isIdentChar) := by
      simpa using List.find?_some (show Keyword.all.find? _ = some reserved from hReserved)
    rw [← String.toList_ofList (l := (c :: cs).takeWhile isIdentChar), ← hSpelling]
    exact .keyword reserved
  next hFree =>
    refine .name hChars fun reserved hSpelling => ?_
    have hMem : reserved ∈ Keyword.all := by cases reserved <;> decide
    refine List.find?_eq_none.1 hFree reserved hMem ?_
    rw [beq_iff_eq, ← hSpelling, String.ofList_toList]

/-- A symbol takes the characters that it is spelled with. -/
theorem reads_symbol {c : Char} {cs : List Char} {symbol : Symbol} {n : Nat}
    (h : symbol? (c :: cs) = some (symbol, n)) :
    0 < n ∧ (c :: cs).take n = symbol.spelling.toList := by
  unfold symbol? at h
  split at h
  case h_5 first rest _ _ _ _ hEq =>
    obtain ⟨rfl, rfl⟩ := List.cons.inj hEq
    split at h <;> cases h <;> exact ⟨by decide, rfl⟩
  case h_6 hEq => cases hEq
  all_goals
    next hEq =>
      rw [hEq]
      cases h
      exact ⟨by decide, rfl⟩

/-- What takes a number, a word or a symbol as it is written takes what is spelled in code. -/
theorem TakesWritten.code {written : List Char → TokenKind → Prop} {c : Char} {cs : List Char}
    {l : Lexeme} (h : l.TakesWritten written (c :: cs))
    (hWritten : ∀ rest kind, written (c :: rest) kind → CodeWritten c rest kind) :
    l.TakesWritten (Spelled .code) (c :: cs) := by
  intro hFault
  obtain ⟨hSome, kind, hKind, hTaken⟩ := h hFault
  obtain ⟨n, hLength⟩ := Nat.exists_eq_add_of_lt hSome
  rw [hLength] at hTaken
  refine ⟨hSome, kind, hKind, ?_⟩
  rw [hLength]
  exact hWritten _ _ hTaken

/-- A lexeme of code takes what is written for its token. -/
theorem takesWritten_ofCode {c : Char} (hQuote : c ≠ '"') (cs : List Char) :
    (ofCode c cs).TakesWritten (Spelled .code) (c :: cs) := by
  unfold ofCode
  by_cases hLine : c = '\n'
  · rw [if_pos (by simpa using hLine)]
    have hWritten : Spelled .code [c] (.mark .newline) := by simp [Spelled, CodeWritten, hLine]
    exact .of_eq List.singleton_append.symm (List.cons_ne_nil _ _) rfl rfl hWritten
  · rw [if_neg (by simpa using hLine)]
    split
    next hDigit =>
      refine (takesWritten_number hDigit cs).code fun rest kind hWritten => ?_
      simpa [CodeWritten, hQuote, hLine, hDigit] using hWritten
    next hDigit =>
      split
      next hStart =>
        refine (takesWritten_word hStart cs).code fun rest kind hWritten => ?_
        simpa [CodeWritten, hQuote, hLine, hDigit, hStart] using hWritten
      next hStart =>
        split
        next symbol n hSymbol =>
          obtain ⟨hSome, hTaken⟩ := reads_symbol hSymbol
          have hReads : TakesWritten (fun cs kind => symbol.spelling.toList = cs ∧
              kind = .mark (.symbol symbol)) (c :: cs) ⟨some (.mark (.symbol symbol)), n, none⟩ :=
            fun _ => ⟨hSome, _, rfl, hTaken.symm, rfl⟩
          refine hReads.code fun rest kind hWritten => ?_
          simpa [CodeWritten, hQuote, hLine, hDigit, hStart] using ⟨symbol, hWritten⟩
        next =>
          intro hFault
          cases hFault

end Lexeme

end Metagen.Script
