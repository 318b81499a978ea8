import Metagen.Text.Blank
import Metagen.Text.Ranges
import Mathlib.Data.List.DropRight
import Mathlib.Data.List.TakeWhile

/-! Words, and the blank characters around them: what trimming drops, where the first word of a text
ends, and which characters make identifiers. -/

namespace Metagen

open Text

/-- Every character is blank. -/
def Blank (cs : List Char) : Prop := ∀ c ∈ cs, isBlank c = true

/-- Blank characters, a mark, and the rest. -/
def Marked (mark : String) (cs rest : List Char) : Prop :=
  ∃ blanks, Blank blanks ∧ cs = blanks ++ (mark.toList ++ rest)

/-- A word is not empty, holds no blank character, and is not followed by any other. -/
structure FirstWord (text : List Char) (word : String) (rest : List Char) : Prop where
  marked : Marked word text rest
  ne_empty : word ≠ ""
  solid : ∀ c ∈ word.toList, isBlank c = false
  stop : ∀ c ∈ rest.head?, isBlank c = true

variable {cs rest blanks : List Char} {text word : String}

theorem blank_nil : Blank [] := nofun

theorem blank_takeWhile (cs : List Char) : Blank (cs.takeWhile isBlank) :=
  fun _ hc => List.mem_takeWhile_imp hc

theorem blank_append_iff {first second : List Char} :
    Blank (first ++ second) ↔ Blank first ∧ Blank second := List.forall_mem_append

theorem isAllBlank_iff : isAllBlank text = true ↔ Blank text.toList := List.all_eq_true

theorem dropWhile_of_blank (h : Blank blanks) (cs : List Char) :
    (blanks ++ cs).dropWhile isBlank = cs.dropWhile isBlank := List.dropWhile_append_of_pos h

theorem dropWhile_cons_of_solid {c : Char} (h : isBlank c = false) (cs : List Char) :
    (c :: cs).dropWhile isBlank = c :: cs := List.dropWhile_cons_of_neg (by simp [h])

theorem blank_take {n : Nat} (h : n ≤ leadingBlanks text) : Blank (text.toList.take n) := by
  have hPrefix : text.toList.take n <+: text.toList.takeWhile isBlank := by
    rw [leadingBlanks] at h
    exact List.prefix_of_prefix_length_le (List.take_prefix _ _) (List.takeWhile_prefix _)
      (Nat.le_trans (List.length_take_le _ _) h)
  exact fun c hc => List.mem_takeWhile_imp (hPrefix.subset hc)

/-- A text that does not end in a blank stays when blanks behind it are dropped. -/
theorem dropTrailing_append {chars : List Char} {last : Char} (hLast : chars.getLast? = some last)
    (hSolid : isBlank last = false) (behind : List Char) :
    dropTrailing isBlank (chars ++ behind) = chars ++ dropTrailing isBlank behind := by
  have hKept : chars.reverse.dropWhile isBlank = chars.reverse := by
    obtain ⟨before, rfl⟩ := List.getLast?_eq_some_iff.1 hLast
    simp [hSolid]
  unfold dropTrailing
  rw [List.reverse_append, List.dropWhile_append]
  cases hBehind : behind.reverse.dropWhile isBlank with
  | nil => simp [hKept]
  | cons => simp

theorem trimEnd_of_getLast? {last : Char} (hLast : text.toList.getLast? = some last)
    (hSolid : isBlank last = false) : trimEnd text = text := by
  have hKept := dropTrailing_append hLast hSolid []
  rw [List.append_nil] at hKept
  rw [trimEnd, hKept]
  simp [dropTrailing]

theorem dropTrailing_append_of_blank (h : Blank blanks) (cs : List Char) :
    dropTrailing isBlank (cs ++ blanks) = dropTrailing isBlank cs := by
  unfold dropTrailing
  rw [List.reverse_append, dropWhile_of_blank fun c hc => h c (List.mem_reverse.1 hc)]

/-- What trailing blanks are dropped from, with these. -/
theorem exists_dropTrailing (cs : List Char) :
    ∃ behind, Blank behind ∧ cs = dropTrailing isBlank cs ++ behind :=
  ⟨cs.rtakeWhile isBlank, fun _ hc => List.mem_rtakeWhile_imp hc,
    List.rdropWhile_append_rtakeWhile.symm⟩

theorem toList_trim (text : String) :
    (trim text).toList = dropTrailing isBlank (text.toList.dropWhile isBlank) := by
  simp [trim, trimEnd, trimStart]

/-- Two texts with the same characters between their blanks are trimmed to the same text. -/
theorem trim_eq_of_toList {other : String}
    (h : dropTrailing isBlank (text.toList.dropWhile isBlank) =
      dropTrailing isBlank (other.toList.dropWhile isBlank)) : trim text = trim other := by
  rw [← String.toList_inj, toList_trim, toList_trim, h]

/-- A text is its trimmed text with blank characters around it. -/
theorem exists_trim (text : String) : ∃ before behind, Blank before ∧ Blank behind ∧
    text.toList = before ++ ((trim text).toList ++ behind) := by
  obtain ⟨behind, hBehind, hRest⟩ := exists_dropTrailing (text.toList.dropWhile isBlank)
  refine ⟨text.toList.takeWhile isBlank, behind, blank_takeWhile _, hBehind, ?_⟩
  rw [toList_trim, ← hRest, List.takeWhile_append_dropWhile]

theorem trim_blank_append (h : Blank blanks) (cs : List Char) :
    trim (.ofList (blanks ++ cs)) = trim (.ofList cs) := by
  apply trim_eq_of_toList
  rw [String.toList_ofList, String.toList_ofList, dropWhile_of_blank h]

theorem trim_append_blank (h : Blank blanks) (cs : List Char) :
    trim (.ofList (cs ++ blanks)) = trim (.ofList cs) := by
  apply trim_eq_of_toList
  rw [String.toList_ofList, String.toList_ofList, List.dropWhile_append]
  cases hRest : cs.dropWhile isBlank with
  | nil =>
      have hNone : blanks.dropWhile isBlank = [] := List.dropWhile_eq_nil_iff.2 h
      simp [hNone]
  | cons c more =>
      rw [if_neg (by simp)]
      exact dropTrailing_append_of_blank h _

theorem trim_of_blank (h : Blank text.toList) : trim text = "" := by
  have hTrimmed := trim_blank_append h []
  rwa [List.append_nil, String.ofList_toList] at hTrimmed

/-- A word stays as it is. -/
theorem trim_of_solid (hSolid : ∀ c ∈ text.toList, isBlank c = false) : trim text = text := by
  rw [← String.toList_inj, toList_trim]
  have hFirst : text.toList.dropWhile isBlank = text.toList := by
    rw [List.dropWhile_eq_self_iff]
    exact fun hNe => by simp [hSolid _ (List.getElem_mem _)]
  rw [hFirst]
  exact List.rdropWhile_eq_self_iff.2 fun hNe => by simp [hSolid _ (List.getLast_mem hNe)]

theorem blank_or_firstWord (cs : List Char) : Blank cs ∨ ∃ word rest, FirstWord cs word rest := by
  have hParts := List.takeWhile_append_dropWhile (p := isBlank) (l := cs)
  cases hTail : cs.dropWhile isBlank with
  | nil =>
      rw [hTail, List.append_nil] at hParts
      exact .inl (hParts ▸ blank_takeWhile cs)
  | cons c more =>
      have hSolid : isBlank c = false := by
        have hHead := List.head?_dropWhile_not isBlank cs
        rw [hTail] at hHead
        simpa using hHead
      have hWord := List.takeWhile_append_dropWhile (p := (!isBlank ·)) (l := c :: more)
      refine .inr ⟨.ofList ((c :: more).takeWhile (!isBlank ·)), (c :: more).dropWhile (!isBlank ·),
        ⟨cs.takeWhile isBlank, blank_takeWhile cs, ?_⟩, ?_, ?_, ?_⟩
      · rw [String.toList_ofList, hWord, ← hTail, hParts]
      · rw [ne_eq, ← String.toList_eq_nil_iff, String.toList_ofList,
          List.takeWhile_cons_of_pos (by simp [hSolid])]
        exact List.cons_ne_nil _ _
      · rw [String.toList_ofList]
        intro d hd
        simpa using List.mem_takeWhile_imp hd
      · intro d hd
        have hHead := List.head?_dropWhile_not (!isBlank ·) (c :: more)
        rw [hd] at hHead
        simpa using hHead

/-- Blank characters before a text make no words. -/
theorem filter_splitOnP_blank (h : Blank blanks) (cs : List Char) :
    ((blanks ++ cs).splitOnP isBlank).filter (fun w => !w.isEmpty) =
      (cs.splitOnP isBlank).filter (fun w => !w.isEmpty) := by
  induction blanks with
  | nil => rfl
  | cons b blanks ih =>
      rw [List.cons_append, List.splitOnP_cons_eq_if_modifyHead, if_pos (h b List.mem_cons_self)]
      exact ih fun c hc => h c (List.mem_cons_of_mem _ hc)

theorem words_head?_of_blank (h : Blank text.toList) : (words text).head? = none := by
  have hWords := filter_splitOnP_blank h []
  rw [List.append_nil] at hWords
  rw [words, hWords]
  rfl

namespace FirstWord

theorem words_head? (h : FirstWord text.toList word rest) : (words text).head? = some word := by
  obtain ⟨⟨blanks, hBlanks, hText⟩, hNe, hSolid, hStop⟩ := h
  have hNonempty : (!word.toList.isEmpty) = true := by
    simpa [List.isEmpty_iff, String.toList_eq_nil_iff] using hNe
  have hFirst : ∃ others, (word.toList ++ rest).splitOnP isBlank = word.toList :: others := by
    cases rest with
    | nil =>
        rw [List.append_nil]
        exact ⟨[], List.splitOnP_eq_singleton hSolid⟩
    | cons c rest => exact ⟨_, List.splitOnP_append_cons_of_forall_mem hSolid c (hStop c rfl) rest⟩
  obtain ⟨others, hOthers⟩ := hFirst
  rw [words, hText, filter_splitOnP_blank hBlanks, hOthers,
    List.filter_cons_of_pos (p := fun w : List Char => !w.isEmpty) hNonempty, List.map_cons,
    List.head?_cons, String.ofList_toList]

/-- The word ends where the first blank character behind it is. -/
theorem takeWhile_eq (h : FirstWord cs word rest) :
    (word.toList ++ rest).takeWhile (!isBlank ·) = word.toList ∧
      (word.toList ++ rest).dropWhile (!isBlank ·) = rest := by
  have hWord : ∀ c ∈ word.toList, (!isBlank c) = true := by simpa using h.solid
  rw [List.takeWhile_append_of_pos hWord, List.dropWhile_append_of_pos hWord]
  cases rest with
  | nil => simp
  | cons c rest => simp [h.stop c rfl]

/-- The word is where the blank characters before it end. -/
theorem dropWhile_eq (h : FirstWord cs word rest) :
    cs.dropWhile isBlank = word.toList ++ rest := by
  obtain ⟨⟨blanks, hBlanks, rfl⟩, hNe, hSolid, -⟩ := h
  obtain ⟨c, others, hWord⟩ := List.exists_cons_of_ne_nil
    (fun hNil => hNe (String.toList_eq_nil_iff.1 hNil) : word.toList ≠ [])
  rw [dropWhile_of_blank hBlanks, hWord, List.cons_append,
    dropWhile_cons_of_solid (hSolid c (hWord ▸ List.mem_cons_self))]

/-- A text has one first word. -/
theorem unique (h : FirstWord cs word rest) {other : String} {rest' : List Char}
    (h' : FirstWord cs other rest') : word = other ∧ rest = rest' := by
  have hSame : word.toList ++ rest = other.toList ++ rest' :=
    h.dropWhile_eq.symm.trans h'.dropWhile_eq
  constructor
  · rw [← String.toList_inj, ← h.takeWhile_eq.1, hSame, h'.takeWhile_eq.1]
  · rw [← h.takeWhile_eq.2, hSame, h'.takeWhile_eq.2]

theorem not_blank (h : FirstWord cs word rest) : ¬ Blank cs := by
  intro hBlank
  have hNone : cs.dropWhile isBlank = [] := List.dropWhile_eq_nil_iff.2 hBlank
  rw [h.dropWhile_eq, List.append_eq_nil_iff] at hNone
  exact h.ne_empty (String.toList_eq_nil_iff.1 hNone.1)

/-- A trimmed text starts with its first word, and goes on with what the word is followed by up to
the last blank characters. -/
theorem toList_trim (h : FirstWord text.toList word rest) :
    (trim text).toList = word.toList ++ dropTrailing isBlank rest ∧
      FirstWord (trim text).toList word (dropTrailing isBlank rest) := by
  have hNe : word.toList ≠ [] := fun hNil => h.ne_empty (String.toList_eq_nil_iff.1 hNil)
  have hText : (trim text).toList = word.toList ++ dropTrailing isBlank rest := by
    rw [Metagen.toList_trim, h.dropWhile_eq,
      dropTrailing_append (List.getLast?_eq_some_getLast hNe) (h.solid _ (List.getLast_mem hNe))]
  refine ⟨hText, ⟨[], blank_nil, hText⟩, h.ne_empty, h.solid, fun c hc => ?_⟩
  obtain ⟨behind, -, hRest⟩ := exists_dropTrailing rest
  refine h.stop c ?_
  rw [hRest, List.head?_append, hc]
  rfl

end FirstWord

theorem isIdentChar_of_isIdentStart {c : Char} (h : isIdentStart c = true) :
    isIdentChar c = true := by
  simp only [isIdentStart, isIdentChar, Char.isAlphanum, Bool.or_eq_true] at h ⊢
  exact h.imp_left .inl

theorem isBlank_of_isIdentChar {c : Char} (h : isIdentChar c = true) : isBlank c = false := by
  have hRange : 48 ≤ c.toNat ∧ c.toNat ≤ 122 := by
    have hAlphanum : c.isAlphanum = ((decide (c.val ≥ 'A'.val ∧ c.val ≤ 'Z'.val) ||
        (decide (c.val ≥ 'a'.val) && decide (c.val ≤ 'z'.val))) ||
        (decide (c.val ≥ '0'.val) && decide (c.val ≤ '9'.val))) := rfl
    simp only [isIdentChar, hAlphanum, Bool.or_eq_true, Bool.and_eq_true, decide_eq_true_eq,
      beq_iff_eq, ge_iff_le, UInt32.le_iff_toNat_le] at h
    rcases h with ((h | h) | h) | rfl
    · simp at h
      exact ⟨by omega, by omega⟩
    · simp at h
      exact ⟨by omega, by omega⟩
    · simp at h
      exact ⟨by omega, by omega⟩
    · decide
  simp [isBlank]
  omega

theorem isIdentChar_of_isIdentifier {s : String} (h : isIdentifier s = true) :
    ∀ c ∈ s.toList, isIdentChar c = true := by
  unfold isIdentifier at h
  cases hChars : s.toList with
  | nil => simp
  | cons c cs =>
      simp only [hChars, Bool.and_eq_true, List.all_eq_true] at h
      rintro c' (_ | ⟨_, hMem⟩)
      · exact isIdentChar_of_isIdentStart h.1
      · exact h.2 c' hMem

/-- An identifier holds nothing but characters of identifiers. -/
theorem notMem_of_isIdentifier {s : String} (h : isIdentifier s = true) {c : Char}
    (hc : isIdentChar c = false) : c ∉ s.toList := by
  intro hMem
  rw [isIdentChar_of_isIdentifier h c hMem] at hc
  cases hc

theorem isBlank_of_mem_digits {n : Nat} {c : Char} (h : c ∈ (toString n).toList) :
    isBlank c = false := by
  rw [Nat.toString_eq_repr, Nat.toList_repr] at h
  have hDigit := Nat.isDigit_of_mem_toDigits (by decide) (by decide) h
  apply isBlank_of_isIdentChar
  simp [isIdentChar, Char.isAlphanum, hDigit]

theorem notMem_digits (n : Nat) : '\n' ∉ (toString n).toList := fun h =>
  absurd (isBlank_of_mem_digits h) (by decide)

end Metagen
