import Metagen.Proofs.Text.Lines

/-! Indentation. Neither the blanks at the ends of lines nor an indentation in front of all lines
makes a difference to a block that is moved left. So the same lines are read from a text, from the
text moved right, and from the text moved right between the quotes of a literal. -/

namespace Metagen.Text

/-- The common indentation is the least one of the lines that take part in measuring it. -/
theorem commonIndent_eq_iff {comment : Option String} {block : List String} {n : Nat}
    (hSome : ∃ line ∈ block, measures comment line = true) : commonIndent comment block = n ↔
      (∃ line ∈ block, measures comment line = true ∧ leadingBlanks line = n) ∧
        ∀ line ∈ block, measures comment line = true → n ≤ leadingBlanks line := by
  have hMeasured : ((block.filter (measures comment)).map leadingBlanks).min?.isSome = true := by
    rw [List.isSome_min?_iff]
    simpa [List.filter_eq_nil_iff] using hSome
  have hIff (m : Nat) : ((block.filter (measures comment)).map leadingBlanks).min? = some m ↔
      (∃ line ∈ block, measures comment line = true ∧ leadingBlanks line = m) ∧
        ∀ line ∈ block, measures comment line = true → m ≤ leadingBlanks line := by
    simp only [List.min?_eq_some_iff, List.mem_map, List.mem_filter, and_assoc]
    grind
  rw [← hIff, commonIndent]
  cases h : ((block.filter (measures comment)).map leadingBlanks).min? with
  | none => simp [h] at hMeasured
  | some m => simp

/-- Behind what was dropped at the end stands a character that does not pass the test. -/
theorem getLast?_dropTrailing {p : Char → Bool} {cs : List Char} {c : Char}
    (h : (dropTrailing p cs).getLast? = some c) : p c = false := by
  rw [dropTrailing, List.getLast?_reverse] at h
  have hNot := List.head?_dropWhile_not p cs.reverse
  simpa [h] using hNot

theorem isAllBlank_trimEnd (line : String) : isAllBlank (trimEnd line) = isAllBlank line := by
  obtain ⟨behind, hBehind, hLine⟩ := exists_dropTrailing line.toList
  rw [Bool.eq_iff_iff, isAllBlank_iff, isAllBlank_iff, hLine, blank_append_iff, trimEnd,
    String.toList_ofList]
  exact ⟨fun h => ⟨h, hBehind⟩, fun h => h.1⟩

/-- Blank characters at the end of a solid line have no part in its indentation. -/
theorem leadingBlanks_trimEnd {line : String} (h : isAllBlank line = false) :
    leadingBlanks (trimEnd line) = leadingBlanks line := by
  obtain ⟨behind, hBehind, hLine⟩ := exists_dropTrailing line.toList
  -- The blanks in front end before the text does, or the whole line would be blank.
  have hKept : ¬ (List.takeWhile isBlank (dropTrailing isBlank line.toList)).length =
      (dropTrailing isBlank line.toList).length := by
    intro hLength
    have hAll : Blank (dropTrailing isBlank line.toList) := by
      rw [← (List.takeWhile_prefix isBlank).eq_of_length hLength]
      exact blank_takeWhile _
    rw [← Bool.not_eq_true, isAllBlank_iff, hLine, blank_append_iff] at h
    exact h ⟨hAll, hBehind⟩
  rw [leadingBlanks, leadingBlanks, trimEnd, String.toList_ofList]
  conv_rhs => rw [hLine, List.takeWhile_append, if_neg hKept]

/-- Trailing blanks may be dropped before or after leading characters are, as long as these reach
into the line. -/
theorem trimEnd_drop {line : String} {n : Nat} (h : n ≤ (trimEnd line).toList.length) :
    trimEnd (.ofList ((trimEnd line).toList.drop n)) = trimEnd (.ofList (line.toList.drop n)) := by
  obtain ⟨behind, hBehind, hLine⟩ := exists_dropTrailing line.toList
  rw [trimEnd, String.toList_ofList] at h
  have hDropped : dropTrailing isBlank (line.toList.drop n) =
      dropTrailing isBlank ((dropTrailing isBlank line.toList).drop n) := by
    conv_lhs => rw [hLine, List.drop_append_of_le_length h, dropTrailing_append_of_blank hBehind]
  simp only [trimEnd, String.toList_ofList, hDropped]

/-- Moving a line left drops its trailing blanks anyway, so that dropping them before makes no
difference. -/
theorem shiftLeft_trimEnd (n : Nat) (line : String) :
    shiftLeft n (trimEnd line) = shiftLeft n line := by
  rw [shiftLeft, shiftLeft, isAllBlank_trimEnd]
  cases hBlank : isAllBlank line with
  | true => rw [if_pos rfl, if_pos rfl]
  | false =>
      rw [if_neg Bool.false_ne_true, if_neg Bool.false_ne_true]
      have hLength : leadingBlanks (trimEnd line) ≤ (trimEnd line).toList.length :=
        (List.takeWhile_prefix isBlank).length_le
      rw [leadingBlanks_trimEnd hBlank] at hLength ⊢
      exact trimEnd_drop (Nat.le_trans (Nat.min_le_right _ _) hLength)

/-- A block is moved left without regard to the blanks at the ends of its lines. -/
theorem dedentLines_trimEnd (block : List String) :
    dedentLines none (block.map trimEnd) = dedentLines none block := by
  have hMeasures (line : String) : measures none (trimEnd line) = measures none line := by
    simp [measures, isAllBlank_trimEnd]
  have hMeasured : (block.map trimEnd).filter (measures none) =
      (block.filter (measures none)).map trimEnd := by
    simp only [List.filter_map, Function.comp_def, hMeasures]
  have hBlanks : ((block.filter (measures none)).map trimEnd).map leadingBlanks =
      (block.filter (measures none)).map leadingBlanks := by
    rw [List.map_map]
    apply List.map_congr_left
    intro line hLine
    apply leadingBlanks_trimEnd
    simpa [measures] using (List.mem_filter.1 hLine).2
  have hIndent : commonIndent none (block.map trimEnd) = commonIndent none block := by
    rw [commonIndent, commonIndent, hMeasured, hBlanks]
  rw [dedentLines, dedentLines, hIndent, List.map_map]
  apply List.map_congr_left
  intro line _
  rw [Function.comp_apply, shiftLeft_trimEnd]

/-- Blocks whose lines differ in blanks at their ends alone are dedented to the same lines. -/
theorem dedentLines_eq_of_trimEnd {block other : List String}
    (h : block.map trimEnd = other.map trimEnd) :
    dedentLines none block = dedentLines none other := by
  rw [← dedentLines_trimEnd, h, dedentLines_trimEnd]

theorem trimEnd_dropReturn (cs : List Char) :
    trimEnd (.ofList (dropReturn cs)) = trimEnd (.ofList cs) := by
  rcases dropReturn_eq cs with hSame | hReturn
  · rw [hSame]
  · have hBlank : Blank ['\r'] := by simp [Blank, isBlank]
    rw [trimEnd, trimEnd, String.toList_ofList, String.toList_ofList]
    conv_rhs => rw [hReturn, dropTrailing_append_of_blank hBlank]

section

variable {w : String}

theorem isAllBlank_append (hw : isAllBlank w = true) (line : String) :
    isAllBlank (w ++ line) = isAllBlank line := by
  simp_all [isAllBlank]

/-- Blanks in front of a line add to its indentation. -/
theorem leadingBlanks_append (hw : isAllBlank w = true) (line : String) :
    leadingBlanks (w ++ line) = w.length + leadingBlanks line := by
  rw [leadingBlanks, String.toList_append, List.takeWhile_append_of_pos (isAllBlank_iff.1 hw),
    List.length_append, String.length_toList, leadingBlanks]

theorem measures_append (hw : isAllBlank w = true) (comment : Option String) (line : String) :
    measures comment (w ++ line) = measures comment line := by
  have hStart : trimStart (w ++ line) = trimStart line := by
    rw [trimStart, trimStart, String.toList_append, dropWhile_of_blank (isAllBlank_iff.1 hw)]
  simp only [measures, isAllBlank_append hw, hStart]

/-- Blank characters in front of a line are taken away together with what is taken from the line
itself. -/
theorem shiftLeft_append (hw : isAllBlank w = true) (n : Nat) (line : String) :
    shiftLeft (w.length + n) (w ++ line) = shiftLeft n line := by
  have hDrop : (w.toList ++ line.toList).drop (w.length + min n (leadingBlanks line)) =
      line.toList.drop (min n (leadingBlanks line)) := by
    rw [← String.length_toList, List.drop_append]
    simp
  rw [shiftLeft, shiftLeft, isAllBlank_append hw, leadingBlanks_append hw,
    Nat.add_min_add_left, String.toList_append, hDrop]

/-- Lines are moved right by blanks in front of each; for a blank line these may be others, since it
stays blank. -/
def MovesRight (w : String) (f : String → String) (block : List String) : Prop :=
  ∀ line ∈ block, f line = w ++ line ∨ isAllBlank line = true ∧ isAllBlank (f line) = true

variable {f : String → String} {block : List String} {comment : Option String}

theorem MovesRight.measures_eq (h : MovesRight w f block) (hw : isAllBlank w = true)
    {line : String} (hLine : line ∈ block) :
    measures comment (f line) = measures comment line := by
  rcases h line hLine with hMoved | ⟨hBlank, hStays⟩
  · rw [hMoved, measures_append hw]
  · simp [measures, hBlank, hStays]

/-- A block that is moved right adds as much to the indentation of every line that counts. -/
theorem MovesRight.leadingBlanks_eq (h : MovesRight w f block) (hw : isAllBlank w = true)
    {line : String} (hLine : line ∈ block) (hMeasures : measures comment line = true) :
    leadingBlanks (f line) = w.length + leadingBlanks line := by
  rcases h line hLine with hMoved | ⟨hBlank, -⟩
  · rw [hMoved, leadingBlanks_append hw]
  · simp [measures, hBlank] at hMeasures

/-- The common indentation grows by the blanks in front of each line, if it is measured at all. -/
theorem MovesRight.commonIndent_eq (h : MovesRight w f block) (hw : isAllBlank w = true)
    (hSome : ∃ line ∈ block, measures comment line = true) :
    commonIndent comment (block.map f) = w.length + commonIndent comment block := by
  obtain ⟨⟨least, hLeast, hMeasures, hEq⟩, hBound⟩ := (commonIndent_eq_iff hSome).1 rfl
  have hMoved : measures comment (f least) = true := by rwa [h.measures_eq hw hLeast]
  rw [commonIndent_eq_iff ⟨f least, List.mem_map_of_mem hLeast, hMoved⟩]
  constructor
  · refine ⟨f least, List.mem_map_of_mem hLeast, hMoved, ?_⟩
    rw [h.leadingBlanks_eq hw hLeast hMeasures, hEq]
  · intro moved hIn hMeasured
    obtain ⟨line, hLine, rfl⟩ := List.mem_map.1 hIn
    rw [h.measures_eq hw hLine] at hMeasured
    rw [h.leadingBlanks_eq hw hLine hMeasured]
    exact Nat.add_le_add_left (hBound line hLine hMeasured) _

/-- A block is moved left as far as it was moved right before. -/
theorem MovesRight.dedentLines_eq (h : MovesRight w f block) (hw : isAllBlank w = true)
    (hSome : ∃ line ∈ block, measures comment line = true) :
    dedentLines comment (block.map f) = dedentLines comment block := by
  rw [dedentLines, dedentLines, h.commonIndent_eq hw hSome, List.map_map]
  apply List.map_congr_left
  intro line hLine
  rcases h line hLine with hMoved | ⟨hBlank, hStays⟩
  · rw [Function.comp_apply, hMoved, shiftLeft_append hw]
  · rw [Function.comp_apply, shiftLeft, shiftLeft, if_pos hBlank, if_pos hStays]

/-- Lines of which there is a first one that is not blank, and a last one that is not blank. -/
structure Framed (block : List String) : Prop where
  first : ∃ line ∈ block.head?, isAllBlank line = false
  last : ∃ line ∈ block.getLast?, isAllBlank line = false
  single : ∀ line ∈ block, '\n' ∉ line.toList

theorem Framed.ne_nil (h : Framed block) : block ≠ [] := by
  obtain ⟨line, hLine, -⟩ := h.first
  exact List.ne_nil_of_mem (List.mem_of_mem_head? hLine)

theorem Framed.measures (h : Framed block) : ∃ line ∈ block, measures none line = true := by
  obtain ⟨line, hLine, hSolid⟩ := h.first
  exact ⟨line, List.mem_of_mem_head? hLine, by simp [Text.measures, hSolid]⟩

/-- A block that starts and ends with solid lines still does so when all its lines are moved to the
right. -/
theorem Framed.moved (h : Framed block) (hw : isAllBlank w = true) (hSingle : '\n' ∉ w.toList) :
    Framed (block.map (w ++ ·)) where
  first := by
    obtain ⟨line, hLine, hSolid⟩ := h.first
    exact ⟨w ++ line, by simpa using hLine, by rwa [isAllBlank_append hw]⟩
  last := by
    obtain ⟨line, hLine, hSolid⟩ := h.last
    exact ⟨w ++ line, by simpa using hLine, by rwa [isAllBlank_append hw]⟩
  single := by
    intro line hLine
    obtain ⟨original, hOriginal, rfl⟩ := List.mem_map.1 hLine
    simpa [hSingle] using h.single original hOriginal

/-- Whether a line is blank has nothing to do with the blanks at its end. -/
theorem exists_solid_of_trimEnd (line : Option String) {other : Option String}
    (h : line.map trimEnd = other.map trimEnd) (hSolid : ∃ l ∈ other, isAllBlank l = false) :
    ∃ l ∈ line, isAllBlank l = false := by
  obtain ⟨solid, rfl, hSolid⟩ := hSolid
  obtain ⟨l, hLine, hSame⟩ := Option.map_eq_some_iff.1 h
  refine ⟨l, hLine, ?_⟩
  rwa [← isAllBlank_trimEnd, hSame, isAllBlank_trimEnd]

/-- A literal is the block between its quotes. -/
theorem literalLines_eq {text : String} (opening closing : Option String) {body : List String}
    (hLines : lines text = opening.toList ++ (body ++ closing.toList))
    (hOpening : ∀ line ∈ opening, isAllBlank line = true)
    (hClosing : ∀ line ∈ closing, isAllBlank line = true)
    (hBlock : Framed block) (hSame : body.map trimEnd = block.map trimEnd) :
    literalLines text = body := by
  obtain ⟨first, hFirst, hHead⟩ := exists_solid_of_trimEnd body.head?
    (by simp [← List.head?_map, hSame]) hBlock.first
  obtain ⟨last, hLast, hTail⟩ := exists_solid_of_trimEnd body.getLast?
    (by simp [← List.getLast?_map, hSame]) hBlock.last
  have hEnd : body.getLast? = some last := hLast
  obtain ⟨rest, hBody⟩ := List.head?_eq_some_iff.1 hFirst
  have hNe : body ≠ [] := List.ne_nil_of_mem (List.mem_of_mem_head? hFirst)
  unfold literalLines
  rw [hLines]
  -- A first and a last line are dropped if they are blank, which those of the body are not.
  cases opening with
  | none =>
      have hAll : Option.toList none ++ (body ++ closing.toList) =
          first :: (rest ++ closing.toList) := by rw [hBody]; rfl
      rw [hAll]
      simp only [hHead, Bool.false_eq_true, if_false]
      rw [← List.cons_append, ← hBody]
      cases closing with
      | none => simp [hEnd, hTail]
      | some behind => simp [hClosing behind rfl, List.length_pos_iff, hNe]
  | some before =>
      cases closing with
      | none => simp [hOpening before rfl, hEnd, hTail]
      | some behind => simp [hOpening before rfl, hClosing behind rfl, List.length_pos_iff, hNe]

/-- A line without the carriage return at its end. -/
def withoutReturn (line : String) : String := .ofList (dropReturn line.toList)

theorem trimEnd_withoutReturn (line : String) : trimEnd (withoutReturn line) = trimEnd line := by
  rw [withoutReturn, trimEnd_dropReturn, String.ofList_toList]

/-- What is joined by line feeds is read back line by line, up to carriage returns. -/
theorem lines_intercalate {front : List String} {last : String}
    (hSingle : ∀ line ∈ front ++ [last], '\n' ∉ line.toList) :
    lines ("\n".intercalate (front ++ [last])) =
      front.map withoutReturn ++ if last = "" then [] else [last] := by
  have hSplit : ("\n".intercalate (front ++ [last])).toList.splitOn '\n' =
      front.map String.toList ++ [last.toList] := by
    rw [String.toList_intercalate, ← List.map_singleton, ← List.map_append]
    apply List.splitOn_intercalate
    · intro part hPart
      obtain ⟨line, hLine, rfl⟩ := List.mem_map.1 hPart
      exact hSingle line hLine
    · simp
  rw [lines_of_splitOn hSplit, List.map_map]
  simp [withoutReturn, Function.comp_def]

/-- A framed block has a last line, which is not empty, and none of its lines holds a line feed. -/
theorem Framed.exists_concat (h : Framed block) : ∃ front last, block = front ++ [last] ∧
    last ≠ "" ∧ ∀ line ∈ front ++ [last], '\n' ∉ line.toList := by
  obtain ⟨front, last, rfl⟩ : ∃ front last, block = front ++ [last] :=
    ⟨_, _, (List.dropLast_concat_getLast h.ne_nil).symm⟩
  refine ⟨front, last, rfl, ?_, h.single⟩
  rintro rfl
  obtain ⟨line, hLine, hSolid⟩ := h.last
  simp_all [isAllBlank]

/-- Joined lines are moved left like the lines themselves. -/
theorem Framed.dedentLines_joined (h : Framed block) :
    dedentLines none (literalLines ("\n".intercalate block)) = dedentLines none block := by
  obtain ⟨front, last, hBlock, hNe, hSingle⟩ := h.exists_concat
  have hLines : lines ("\n".intercalate block) = front.map withoutReturn ++ [last] := by
    rw [hBlock, lines_intercalate hSingle, if_neg hNe]
  have hSame : (front.map withoutReturn ++ [last]).map trimEnd = block.map trimEnd := by
    simp [hBlock, trimEnd_withoutReturn]
  rw [literalLines_eq none none (by simpa using hLines) nofun nofun h hSame]
  exact dedentLines_eq_of_trimEnd hSame

/-- Between quotes, joined lines are moved left like the lines themselves. -/
theorem Framed.dedentLines_literal (h : Framed block) (hw : isAllBlank w = true)
    (hSingle : '\n' ∉ w.toList) :
    dedentLines none (literalLines ("\n" ++ ("\n".intercalate block ++ ("\n" ++ w)))) =
      dedentLines none block := by
  have hText : "\n" ++ ("\n".intercalate block ++ ("\n" ++ w)) =
      "\n".intercalate (("" :: block) ++ [w]) := by
    rw [String.intercalate_append_of_ne_nil (by simp) (by simp),
      String.intercalate_cons_of_ne_nil h.ne_nil]
    simp [String.append_assoc]
  have hParts : ∀ line ∈ ("" :: block) ++ [w], '\n' ∉ line.toList := by
    simpa [or_imp, forall_and] using And.intro h.single hSingle
  have hLines : lines ("\n" ++ ("\n".intercalate block ++ ("\n" ++ w))) =
      (some "").toList ++
        (block.map withoutReturn ++ (if w = "" then none else some w).toList) := by
    rw [hText, lines_intercalate hParts, List.map_cons, show withoutReturn "" = "" from rfl]
    split <;> rfl
  have hSame : (block.map withoutReturn).map trimEnd = block.map trimEnd := by
    simp [trimEnd_withoutReturn]
  have hClosing : ∀ line ∈ (if w = "" then none else some w), isAllBlank line = true := by
    simp [hw]
  rw [literalLines_eq _ _ hLines (by simp [isAllBlank]) hClosing h hSame]
  exact dedentLines_eq_of_trimEnd hSame

end

end Metagen.Text
