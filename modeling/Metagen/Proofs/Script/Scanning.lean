import Metagen.Proofs.Script.Lexer
import Metagen.Proofs.Text.Words

/-! A scan gets on. A step of it reads a character or leaves a string, and code that makes no token
is a fault. So the bounds on the steps of a scan, and on the faults in front of one token, are never
reached: with any more steps, the tokens are the same. -/

namespace Metagen.Script

open Text

namespace Lexeme

@[simp] theorem length_integer (base : Nat) (written digits : List Char) :
    (integer base written digits).length = written.length := by
  unfold integer
  split <;> rfl

/-- A decimal number takes one digit at least. -/
theorem length_decimal_pos {c : Char} (h : isDigitOrGap c = true) (cs : List Char) :
    0 < (decimal (c :: cs)).length := by
  have hWhole : 0 < ((c :: cs).takeWhile isDigitOrGap).length := by
    rw [List.takeWhile_cons_of_pos h]
    exact Nat.succ_pos _
  unfold decimal
  dsimp only
  split
  · split
    · exact Nat.lt_of_lt_of_le hWhole (List.sublist_append_left _ _).length_le
    · rwa [length_integer]
  · rwa [length_integer]

/-- A number takes one digit at least. -/
theorem length_number_pos {c : Char} (h : c.isDigit = true) (cs : List Char) :
    0 < (number (c :: cs)).length := by
  have hDecimal := length_decimal_pos (Bool.or_eq_true_iff.2 (.inl h)) cs
  unfold number
  split
  next heq =>
    split
    · simp
    · rwa [← heq]
  next => exact hDecimal

theorem length_word_pos {c : Char} (h : isIdentStart c = true) (cs : List Char) :
    0 < (word (c :: cs)).length := by
  change 0 < (String.ofList ((c :: cs).takeWhile isIdentChar)).length
  rw [String.length_ofList, List.takeWhile_cons_of_pos (isIdentChar_of_isIdentStart h)]
  exact Nat.succ_pos _

/-- A symbol takes one character at least. -/
theorem length_symbol_pos {cs : List Char} {symbol : Symbol} {n : Nat}
    (h : symbol? cs = some (symbol, n)) : 0 < n := by
  unfold symbol? at h
  split at h
  case h_5 => split at h <;> cases h <;> exact Nat.one_pos
  case h_6 => cases h
  all_goals
    cases h
    exact Nat.two_pos

/-- Whatever code starts with, some of it is read. -/
theorem length_ofCode_pos (c : Char) (cs : List Char) : 0 < (ofCode c cs).length := by
  unfold ofCode
  split
  · exact Nat.one_pos
  · split
    next hDigit => exact length_number_pos hDigit cs
    next =>
      split
      next hStart => exact length_word_pos hStart cs
      next =>
        split
        next hSymbol => exact length_symbol_pos hSymbol
        next => exact Nat.one_pos

/-- Code that makes no token is a fault. -/
theorem exists_fault {c : Char} {cs : List Char} (h : (ofCode c cs).kind = none) :
    ∃ f, (ofCode c cs).fault = some f := by
  have hInteger : ∀ base written digits, (integer base written digits).kind ≠ none := by
    intro base written digits
    unfold integer
    split <;> nofun
  have hDecimal : ∀ cs, (decimal cs).kind ≠ none := by
    intro cs
    unfold decimal
    dsimp only
    split
    · split
      · nofun
      · exact hInteger _ _ _
    · exact hInteger _ _ _
  have hNumber : ∀ cs, (number cs).kind ≠ none := by
    intro cs
    unfold number
    split
    · split
      · exact hInteger _ _ _
      · exact hDecimal _
    · exact hDecimal _
  unfold ofCode at h ⊢
  by_cases hLine : (c == '\n') = true
  · rw [if_pos hLine] at h
    cases h
  rw [if_neg hLine] at h ⊢
  by_cases hDigit : c.isDigit = true
  · rw [if_pos hDigit] at h
    exact (hNumber _ h).elim
  rw [if_neg hDigit] at h ⊢
  by_cases hStart : isIdentStart c = true
  · rw [if_pos hStart] at h
    cases h
  rw [if_neg hStart] at h ⊢
  cases hSymbol : symbol? (c :: cs) with
  | some symbol =>
      rw [hSymbol] at h
      cases h
  | none => exact ⟨_, rfl⟩

end Lexeme

/-- No character is read twice, and the mark that opens a hole is read. -/
theorem length_rest_scanText (triple : Bool) (done : List Char) (faults : List (LexFault × Span))
    (p : Position) (cs : List Char) :
    (scanText triple done faults p cs).rest.length +
      (if (scanText triple done faults p cs).ending = .hole then 1 else 0) ≤ cs.length := by
  fun_induction scanText triple done faults p cs with
  | case1 => simp
  | case2 => simp
  | case3 => simp
  | case4 done faults p c cs =>
      simp only [List.length_drop, List.length_cons, if_true]
      omega
  | case5 => simp
  | case6 done faults p c _ _ e more next meant _ _ _ ih =>
      exact Nat.le_add_right_of_le (Nat.le_add_right_of_le ih)
  | case7 done faults p c _ _ e more next _ shown others _ fault _ _ ih =>
      exact Nat.le_add_right_of_le (Nat.le_add_right_of_le ih)
  | case8 done faults p c cs _ _ _ _ ih => exact Nat.le_add_right_of_le ih

namespace Scan

variable {s : Scan}

/-- What bounds the steps of a scan: characters are read, and strings are left. -/
def left (s : Scan) : Nat := 2 * s.rest.length + s.modes.length

theorem modes_faults (s : Scan) (file : SourceFile) (faults : List (LexFault × Span)) :
    (faults.foldl (fun s (f, span) => s.fault file f span) s).modes = s.modes := by
  induction faults generalizing s with
  | nil => rfl
  | cons first others ih => exact ih _

/-- Behind the text of a string, the modes around it are left, or a hole is open. -/
theorem left_takeText (s : Scan) (file : SourceFile) (triple opening : Bool) (start : Position) :
    (s.takeText file triple opening start).2.left ≤
      2 * s.rest.length + (if opening then s.modes else s.modes.tail).length := by
  have hRest := length_rest_scanText triple [] [] s.position s.rest
  have hModes := modes_faults s file (scanText triple [] [] s.position s.rest).faults
  unfold takeText
  dsimp only
  generalize scanText triple [] [] s.position s.rest = r at hRest hModes
  generalize r.faults.foldl (fun s (f, span) => s.fault file f span) s = recorded at hModes
  rw [hModes]
  cases hEnding : r.ending with
  | closed =>
      rw [if_neg (by simp [hEnding])] at hRest
      exact Nat.add_le_add_right (Nat.mul_le_mul_left 2 hRest) _
  | unterminated =>
      rw [if_neg (by simp [hEnding])] at hRest
      exact Nat.add_le_add_right (Nat.mul_le_mul_left 2 hRest) _
  | hole =>
      rw [if_pos hEnding] at hRest
      simp only [left, List.length_cons]
      omega

/-- Gaps and comments are passed without opening holes or finding faults, and characters are only
used up. -/
theorem skipIgnored_spec (s : Scan) : s.skipIgnored.modes = s.modes ∧
    s.skipIgnored.report = s.report ∧ s.skipIgnored.rest.length ≤ s.rest.length := by
  have hSkip : ∀ (s : Scan) n, (s.skip n).rest.length ≤ s.rest.length :=
    fun s n => (List.drop_sublist n s.rest).length_le
  unfold skipIgnored
  dsimp only
  split
  · exact ⟨rfl, rfl, Nat.le_trans (hSkip _ _) (hSkip _ _)⟩
  · exact ⟨rfl, rfl, hSkip _ _⟩

/-- Opening or closing a brace changes nothing of what bounds the steps of a scan. -/
theorem left_brace (s : Scan) (symbol : Symbol) : (s.brace symbol).2.left = s.left := by
  unfold brace
  split
  next hModes => simp [left, hModes]
  next hModes => simp [left, hModes]
  next hModes => simp [left, hModes]
  next => rfl

theorem left_behind {c : Char} {cs : List Char} (h : s.rest = c :: cs) :
    (s.behind c cs).left < s.left := by
  have hLength := Lexeme.length_ofCode_pos c cs
  simp only [left, behind, h, List.length_drop, List.length_cons]
  omega

/-- Behind a lexeme the scan has fewer steps left. -/
theorem left_noted (file : SourceFile) {c : Char} {cs : List Char} (h : s.rest = c :: cs) :
    (s.noted file c cs).left < s.left := by
  have hBehind := left_behind h
  unfold noted
  split
  · exact hBehind
  · exact hBehind

/-- A round of reading code makes tokens, or the end mark; or it finds a fault, and another round
follows. -/
theorem takeCode_succ (s : Scan) (file : SourceFile) :
    (∃ r, (∀ n, s.takeCode file (n + 1) = r) ∧ (r.2.2 = false → r.2.1.left < s.left)) ∨
    ∃ s' : Scan, (∀ n, s.takeCode file (n + 1) = s'.takeCode file n) ∧ s'.left < s.left ∧
      s.report.isFull = false ∧ s'.report.total = s.report.total + 1 := by
  obtain ⟨hModes, hReport, hRest⟩ := s.skipIgnored_spec
  have hSkipped : s.skipIgnored.left ≤ s.left := by
    unfold left
    rw [hModes]
    omega
  obtain ⟨outcome, hRound, hTaken⟩ := s.exists_round file
  rw [← hReport]
  generalize s.skipIgnored = s' at hSkipped hRound
  cases hRound with
  | full => exact .inl ⟨_, hTaken, nofun⟩
  | finished => exact .inl ⟨_, hTaken, nofun⟩
  | unfinished => exact .inl ⟨_, hTaken, nofun⟩
  | @string cs triple hRest =>
      refine .inl ⟨_, hTaken, fun _ => Nat.lt_of_le_of_lt (left_takeText _ _ _ _ _) ?_⟩
      refine Nat.lt_of_lt_of_le ?_ hSkipped
      simp only [skip, left, hRest, List.length_drop, List.length_cons, if_true]
      split <;> omega
  | @faulty c cs hRoom hRest _ hKind =>
      obtain ⟨f, hFault⟩ := Lexeme.exists_fault hKind
      have hTotal : (s'.noted file c cs).report.total = s'.report.total + 1 := by
        simp only [noted, hFault]
        rfl
      exact .inr ⟨_, hTaken, (left_noted file hRest).trans_le hSkipped, hRoom, hTotal⟩
  | symbol hRest =>
      refine .inl ⟨_, hTaken, fun _ => ?_⟩
      rw [left_brace]
      exact (left_noted file hRest).trans_le hSkipped
  | token hRest => exact .inl ⟨_, hTaken, fun _ => (left_noted file hRest).trans_le hSkipped⟩

/-- Code that makes tokens is read. -/
theorem left_takeCode (file : SourceFile) {n : Nat} (h : (s.takeCode file n).2.2 = false) :
    (s.takeCode file n).2.1.left < s.left := by
  induction n generalizing s with
  | zero => cases h
  | succ n ih =>
      rcases s.takeCode_succ file with ⟨r, hRun, hLess⟩ | ⟨s', hRun, hLess, -, -⟩
      · rw [hRun] at h ⊢
        exact hLess h
      · rw [hRun] at h ⊢
        exact Nat.lt_trans (ih h) hLess

/-- Every further round needs another fault, which the report has room for. -/
theorem takeCode_enough (file : SourceFile) {n n' : Nat} (h : maxProblems - s.report.total < n)
    (h' : maxProblems - s.report.total < n') : s.takeCode file n = s.takeCode file n' := by
  induction n generalizing s n' with
  | zero => exact (Nat.not_lt_zero _ h).elim
  | succ n ih =>
      obtain ⟨n', rfl⟩ := Nat.exists_eq_add_of_lt (Nat.zero_lt_of_lt h')
      rw [Nat.zero_add] at h' ⊢
      rcases s.takeCode_succ file with ⟨r, hRun, -⟩ | ⟨s', hRun, -, hRoom, hTotal⟩
      · rw [hRun, hRun]
      · have hLess : s.report.total < maxProblems := by simpa [Report.isFull] using hRoom
        rw [hRun, hRun]
        exact ih (by omega) (by omega)

/-- A step that is not the last one leaves fewer characters, which is why scanning comes to an
end. -/
theorem left_step {file : SourceFile} {r : List Token × Scan × Bool} (hStep : s.Step file r)
    (hMore : r.2.2 = false) : r.2.1.left < s.left := by
  cases hStep with
  | full => cases hMore
  | @text triple outer hModes =>
      refine Nat.lt_of_le_of_lt (left_takeText s file triple false s.position) ?_
      simp [left, hModes]
  | code => exact left_takeCode file hMore

/-- Every further step finds fewer characters, or fewer strings around it. -/
theorem takeAll_enough (file : SourceFile) {n n' : Nat} (done : List Token) (h : s.left < n)
    (h' : s.left < n') : s.takeAll file n done = s.takeAll file n' done := by
  induction n generalizing s n' done with
  | zero => exact (Nat.not_lt_zero _ h).elim
  | succ n ih =>
      obtain ⟨n', rfl⟩ := Nat.exists_eq_add_of_lt (Nat.zero_lt_of_lt h')
      rw [Nat.zero_add] at h' ⊢
      obtain ⟨r, hStep, hTaken⟩ := s.exists_step file
      rw [hTaken, hTaken]
      split
      · rfl
      next hMore =>
        have hLess := left_step hStep (by simpa using hMore)
        exact ih _ (Nat.lt_of_lt_of_le hLess (Nat.lt_succ_iff.1 h))
          (Nat.lt_of_lt_of_le hLess (Nat.lt_succ_iff.1 h'))

end Scan

end Metagen.Script
