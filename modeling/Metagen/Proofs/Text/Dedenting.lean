import Metagen.Proofs.Text.Indentation
import Mathlib.Data.List.Forall2

/-! Blocks that are moved left. All lines that count towards the common indentation lose it, so that
one of them stands at the margin, and other lines lose no more than that. A block at the margin
stays as it is, and a text that is put together from its lines is read as these lines again, but for
a blank one at its end. -/

namespace Metagen.Text

variable {comment : Option String} {n : Nat} {line out mark : String} {block : List String}

/-- There is no blank at the end of a text. -/
def EndsSolid (text : String) : Prop := ∀ c ∈ text.toList.getLast?, isBlank c = false

/-- A line counts towards the indentation of its block: it is not blank, and does not begin with the
comment mark behind the blanks in front. -/
def CountsForIndent (comment : Option String) (line : String) : Prop :=
  ¬ Blank line.toList ∧ ∀ mark ∈ comment, ¬ mark.toList <+: line.toList.dropWhile isBlank

/-- What is left of a line without `n` of the blanks in front of it, and without those behind it. -/
structure Stripped (n : Nat) (line out : String) : Prop where
  parts : ∃ front behind : String, line = front ++ (out ++ behind) ∧ Blank front.toList ∧
    front.length = n ∧ Blank behind.toList
  ending : EndsSolid out

/-- What becomes of a line in a block that is moved left by `n`. -/
inductive MovesLeft (comment : Option String) (n : Nat) (line : String) : String → Prop where
  | blank (hBlank : Blank line.toList) : MovesLeft comment n line ""
  | counted {out : String} (hCounts : CountsForIndent comment line)
    (hStripped : Stripped n line out) :
      MovesLeft comment n line out
  | comment {k : Nat} {out : String} (hSolid : ¬ Blank line.toList)
    (hNot : ¬ CountsForIndent comment line)
      (hLe : k ≤ n) (hStripped : Stripped k line out) : MovesLeft comment n line out

/-- The test for lines that count towards the indentation is exact: they are not blank, and no
comment behind their blanks. -/
theorem measures_iff_countsForIndent :
    measures comment line = true ↔ CountsForIndent comment line := by
  unfold measures
  rw [Bool.and_eq_true, Bool.not_eq_true', ← Bool.not_eq_true, isAllBlank_iff, CountsForIndent]
  cases comment with
  | none => simp
  | some mark => simp [trimStart, ← Bool.not_eq_true, List.isPrefixOf_iff_prefix]

theorem endsSolid_empty : EndsSolid "" := by simp [EndsSolid]

theorem trimEnd_of_endsSolid (h : EndsSolid line) : trimEnd line = line := by
  cases hLast : line.toList.getLast? with
  | none =>
      obtain rfl : line = "" := by simpa using hLast
      rfl
  | some c => exact trimEnd_of_getLast? hLast (h c hLast)

theorem endsSolid_trimEnd (line : String) : EndsSolid (trimEnd line) := by
  intro c hc
  rw [trimEnd, String.toList_ofList] at hc
  exact getLast?_dropTrailing hc

/-- A line that was moved left ends in a solid character, or is empty. -/
theorem endsSolid_shiftLeft (n : Nat) (line : String) : EndsSolid (shiftLeft n line) := by
  unfold shiftLeft
  split
  · exact endsSolid_empty
  · exact endsSolid_trimEnd _

/-- Moving a solid line left takes away the given number of blank characters, or all that the line
starts with. -/
theorem stripped_shiftLeft (n : Nat) (h : ¬ Blank line.toList) :
    Stripped (min n (leadingBlanks line)) line (shiftLeft n line) := by
  refine ⟨?_, endsSolid_shiftLeft n line⟩
  obtain ⟨behind, hBehind, hRest⟩ :=
    exists_dropTrailing (line.toList.drop (min n (leadingBlanks line)))
  have hLength : leadingBlanks line ≤ line.toList.length :=
    (List.takeWhile_prefix isBlank).length_le
  refine ⟨.ofList (line.toList.take (min n (leadingBlanks line))), .ofList behind, ?_, ?_, ?_, ?_⟩
  · rw [shiftLeft, if_neg (by rwa [isAllBlank_iff]), trimEnd, ← String.toList_inj]
    simp only [String.toList_append, String.toList_ofList]
    rw [← hRest, List.take_append_drop]
  · rw [String.toList_ofList]
    exact blank_take (Nat.min_le_right _ _)
  · rw [String.length_ofList, List.length_take]
    omega
  · rwa [String.toList_ofList]

theorem trimEnd_append_of_blank {behind : String} (h : Blank behind.toList) (line : String) :
    trimEnd (line ++ behind) = trimEnd line := by
  rw [trimEnd, trimEnd, String.toList_append, dropTrailing_append_of_blank h]

theorem dropWhile_append_of_solid {cs : List Char} (h : ¬ Blank cs) (ds : List Char) :
    (cs ++ ds).dropWhile isBlank = cs.dropWhile isBlank ++ ds := by
  have hSome : cs.dropWhile isBlank ≠ [] := fun hNone => h (List.dropWhile_eq_nil_iff.1 hNone)
  rw [List.dropWhile_append, if_neg (by simpa using hSome)]

namespace Stripped

variable (h : Stripped n line out)
include h

theorem blank_iff : Blank out.toList ↔ Blank line.toList := by
  obtain ⟨front, behind, rfl, hFront, -, hBehind⟩ := h.parts
  simp [blank_append_iff, hFront, hBehind]

/-- A solid line that was moved left by so many characters had that many leading blanks more. -/
theorem leadingBlanks_eq (hSolid : ¬ Blank line.toList) :
    leadingBlanks line = n + leadingBlanks out := by
  obtain ⟨front, behind, hLine, hFront, rfl, hBehind⟩ := h.parts
  have hOut : isAllBlank (out ++ behind) = false := by
    rw [← h.blank_iff] at hSolid
    rw [← Bool.not_eq_true, isAllBlank_iff, String.toList_append, blank_append_iff]
    exact fun hBoth => hSolid hBoth.1
  have hTrimmed : trimEnd (out ++ behind) = out := by
    rw [trimEnd_append_of_blank hBehind, trimEnd_of_endsSolid h.ending]
  rw [hLine, leadingBlanks_append (isAllBlank_iff.2 hFront), ← leadingBlanks_trimEnd hOut, hTrimmed]

/-- Where the blanks in front end, the line goes on like what is left of it. -/
theorem dropWhile_eq (hSolid : ¬ Blank line.toList) : ∃ behind, Blank behind ∧
    line.toList.dropWhile isBlank = out.toList.dropWhile isBlank ++ behind := by
  rw [← h.blank_iff] at hSolid
  obtain ⟨front, behind, rfl, hFront, -, hBehind⟩ := h.parts
  refine ⟨behind.toList, hBehind, ?_⟩
  rw [String.toList_append, String.toList_append, dropWhile_of_blank hFront,
    dropWhile_append_of_solid hSolid]

/-- A line that counts still does when it is stripped. -/
theorem countsForIndent (hCounts : CountsForIndent comment line) : CountsForIndent comment out := by
  obtain ⟨behind, -, hStart⟩ := h.dropWhile_eq hCounts.1
  refine ⟨h.blank_iff.not.2 hCounts.1, fun mark hMark hPrefix => hCounts.2 mark hMark ?_⟩
  rw [hStart]
  exact hPrefix.trans (List.prefix_append _ _)

/-- A comment whose mark does not end in a blank is a comment still when it is stripped. -/
theorem countsForIndent_of_endsSolid (hMark : ∀ mark ∈ comment, EndsSolid mark)
    (hCounts : CountsForIndent comment out) : CountsForIndent comment line := by
  have hSolid : ¬ Blank line.toList := h.blank_iff.not.1 hCounts.1
  obtain ⟨behind, hBehind, hStart⟩ := h.dropWhile_eq hSolid
  refine ⟨hSolid, fun mark hMem hPrefix => hCounts.2 mark hMem ?_⟩
  rw [hStart] at hPrefix
  rcases List.prefix_or_prefix_of_prefix hPrefix (List.prefix_append _ behind) with hStart | hOver
  · exact hStart
  -- A longer mark would end in one of the blanks behind what is left.
  · obtain ⟨extra, hExtra⟩ := hOver
    rw [← hExtra, List.prefix_append_right_inj] at hPrefix
    cases hLast : extra.getLast? with
    | none =>
        rw [List.getLast?_eq_none_iff.1 hLast, List.append_nil] at hExtra
        exact hExtra ▸ List.prefix_refl _
    | some c =>
        have hBlank := hBehind c (hPrefix.subset (List.mem_of_getLast? hLast))
        have hSolidEnd := hMark mark hMem c (by simp [← hExtra, List.getLast?_append, hLast])
        rw [hBlank] at hSolidEnd
        cases hSolidEnd

end Stripped

/-- If the indentation of the lines that count is at least this, then moving left takes the same
from each of them. -/
theorem movesLeft_shiftLeft (hIndent : CountsForIndent comment line → n ≤ leadingBlanks line) :
    MovesLeft comment n line (shiftLeft n line) := by
  by_cases hBlank : Blank line.toList
  · rw [shiftLeft, if_pos (isAllBlank_iff.2 hBlank)]
    exact .blank hBlank
  · have hStripped := stripped_shiftLeft n hBlank
    by_cases hCounts : CountsForIndent comment line
    · rw [Nat.min_eq_left (hIndent hCounts)] at hStripped
      exact .counted hCounts hStripped
    · exact .comment hBlank hCounts (Nat.min_le_left _ _) hStripped

/-- The common indentation is the least one of the lines that count. -/
theorem commonIndent_of_countsForIndent (h : ∃ line ∈ block, CountsForIndent comment line) :
    (∃ line ∈ block, CountsForIndent comment line ∧
      leadingBlanks line = commonIndent comment block) ∧
      ∀ line ∈ block, CountsForIndent comment line →
        commonIndent comment block ≤ leadingBlanks line := by
  simp only [← measures_iff_countsForIndent] at h ⊢
  exact (commonIndent_eq_iff h).1 rfl

theorem commonIndent_of_none (h : ∀ line ∈ block, ¬ CountsForIndent comment line) :
    commonIndent comment block = 0 := by
  have hNone : block.filter (measures comment) = [] := by
    rw [List.filter_eq_nil_iff]
    exact fun line hLine hMeasures => h line hLine (measures_iff_countsForIndent.1 hMeasures)
  rw [commonIndent, hNone]
  rfl

/-- Each line loses the common indentation if it counts, and no more than that otherwise. -/
theorem forall₂_movesLeft (comment : Option String) (block : List String) :
    List.Forall₂ (MovesLeft comment (commonIndent comment block)) block
      (dedentLines comment block) := by
  rw [dedentLines, List.forall₂_map_right_iff, List.forall₂_same]
  intro line hLine
  apply movesLeft_shiftLeft
  exact fun hCounts => (commonIndent_of_countsForIndent ⟨line, hLine, hCounts⟩).2 line hLine hCounts

/-- A line that counts and has the common indentation comes to stand at the margin. -/
theorem leadingBlanks_shiftLeft (hSolid : ¬ Blank line.toList) (h : leadingBlanks line = n) :
    leadingBlanks (shiftLeft n line) = 0 := by
  have hLeft := (stripped_shiftLeft n hSolid).leadingBlanks_eq hSolid
  omega

/-- Every line of a block stands beside the one it was moved to, all by the common indentation. -/
theorem zip_dedentLines (comment : Option String) (block : List String) :
    block.zip (dedentLines comment block) =
      block.map fun line => (line, shiftLeft (commonIndent comment block) line) := by
  rw [dedentLines, List.zip_map_right, List.zip_eq_zipWith, List.zipWith_self, List.map_map]
  rfl

/-- If a line counts at all then some line that counts loses all of its indentation. -/
theorem exists_margin (h : ∃ line ∈ block, CountsForIndent comment line) :
    ∃ line ∈ block, CountsForIndent comment line ∧
      leadingBlanks (shiftLeft (commonIndent comment block) line) = 0 := by
  obtain ⟨⟨line, hLine, hCounts, hLeast⟩, -⟩ := commonIndent_of_countsForIndent h
  exact ⟨line, hLine, hCounts, leadingBlanks_shiftLeft hCounts.1 hLeast⟩

/-- A block without indentation stays as it is, if no line ends in a blank. -/
theorem dedentLines_of_margin (hIndent : commonIndent comment block = 0)
    (hEnds : ∀ line ∈ block, EndsSolid line) : dedentLines comment block = block := by
  rw [dedentLines, hIndent]
  conv_rhs => rw [← List.map_id block]
  apply List.map_congr_left
  intro line hLine
  unfold shiftLeft
  split
  next hBlank =>
    cases hLast : line.toList.getLast? with
    | none =>
        obtain rfl : line = "" := by simpa using hLast
        rfl
    | some c =>
        have hSolid := hEnds line hLine c hLast
        rw [isAllBlank_iff.1 hBlank c (List.mem_of_getLast? hLast)] at hSolid
        cases hSolid
  next =>
    rw [Nat.zero_min, List.drop_zero, String.ofList_toList]
    exact trimEnd_of_endsSolid (hEnds line hLine)

theorem endsSolid_of_mem_dedentLines (h : line ∈ dedentLines comment block) : EndsSolid line := by
  obtain ⟨original, -, rfl⟩ := List.mem_map.1 h
  exact endsSolid_shiftLeft _ _

/-- Lines that count still do when the block is moved left, and one of them is at the margin. -/
theorem commonIndent_dedentLines (h : ∃ line ∈ block, CountsForIndent comment line) :
    commonIndent comment (dedentLines comment block) = 0 := by
  obtain ⟨line, hLine, hCounts, hMargin⟩ := exists_margin h
  have hMoved : shiftLeft (commonIndent comment block) line ∈ dedentLines comment block :=
    List.mem_map_of_mem hLine
  have hStill := (stripped_shiftLeft (commonIndent comment block) hCounts.1).countsForIndent hCounts
  have hLe := (commonIndent_of_countsForIndent ⟨_, hMoved, hStill⟩).2 _ hMoved hStill
  omega

theorem dedentLines_again_of_countsForIndent (h : ∃ line ∈ block, CountsForIndent comment line) :
    dedentLines comment (dedentLines comment block) = dedentLines comment block :=
  dedentLines_of_margin (commonIndent_dedentLines h) fun _ => endsSolid_of_mem_dedentLines

/-- A block in which no line counts after dedenting is not moved again. -/
theorem dedentLines_again_of_none
    (h : ∀ line ∈ dedentLines comment block, ¬ CountsForIndent comment line) :
    dedentLines comment (dedentLines comment block) = dedentLines comment block :=
  dedentLines_of_margin (commonIndent_of_none h) fun _ => endsSolid_of_mem_dedentLines

/-- A mark that does not end in a blank is found again, so that no line counts that did not. -/
theorem dedentLines_again_of_endsSolid (hMark : ∀ mark ∈ comment, EndsSolid mark) :
    dedentLines comment (dedentLines comment block) = dedentLines comment block := by
  by_cases hSome : ∃ line ∈ block, CountsForIndent comment line
  · exact dedentLines_again_of_countsForIndent hSome
  · apply dedentLines_again_of_none
    intro moved hMoved hCounts
    obtain ⟨line, hLine, rfl⟩ := List.mem_map.1 hMoved
    refine hSome ⟨line, hLine, ?_⟩
    have hSolid : ¬ Blank line.toList := fun hBlank => by
      rw [shiftLeft, if_pos (isAllBlank_iff.2 hBlank)] at hCounts
      exact hCounts.1 blank_nil
    exact (stripped_shiftLeft _ hSolid).countsForIndent_of_endsSolid hMark hCounts

/-- Moving a block left again makes a difference just when no line counted before, and all lines
that count now are indented. -/
theorem dedentLines_again_ne_iff :
    dedentLines comment (dedentLines comment block) ≠ dedentLines comment block ↔
      (∀ line ∈ block, ¬ CountsForIndent comment line) ∧
        (∃ line ∈ dedentLines comment block, CountsForIndent comment line) ∧
        ∀ line ∈ dedentLines comment block, CountsForIndent comment line →
          leadingBlanks line ≠ 0 := by
  constructor
  · intro hAgain
    have hSome : ∃ line ∈ dedentLines comment block, CountsForIndent comment line := by
      by_contra hNone
      apply hAgain
      exact dedentLines_again_of_none fun line hLine hCounts => hNone ⟨line, hLine, hCounts⟩
    refine ⟨fun line hLine hCounts => ?_, hSome, fun line hLine hCounts hMargin => ?_⟩
    · exact hAgain (dedentLines_again_of_countsForIndent ⟨line, hLine, hCounts⟩)
    · have hLe := (commonIndent_of_countsForIndent hSome).2 line hLine hCounts
      rw [hMargin, Nat.le_zero] at hLe
      exact hAgain (dedentLines_of_margin hLe fun _ => endsSolid_of_mem_dedentLines)
  · rintro ⟨-, hSome, hIndented⟩ hAgain
    obtain ⟨line, hLine, hCounts, hMargin⟩ := exists_margin hSome
    have hStays : shiftLeft (commonIndent comment (dedentLines comment block)) line = line := by
      conv_rhs at hAgain => rw [← List.map_id (dedentLines comment block)]
      exact List.map_inj_left.1 hAgain line hLine
    rw [hStays] at hMargin
    exact hIndented line hLine hCounts hMargin

/-- The lines of a block move left by the indentation that they share. Moving the block left again
changes nothing, unless it has made the only lines that count out of comments, by taking away the
blank at the end of their mark; and a third time it never does. How far the block was moved right
before makes no difference. -/
theorem dedentLines_moves_left (comment : Option String) (block : List String) :
    (∃ n, List.Forall₂ (MovesLeft comment n) block (dedentLines comment block)) ∧
      ((∃ line ∈ block, CountsForIndent comment line) →
        ∃ pair ∈ block.zip (dedentLines comment block), CountsForIndent comment pair.1 ∧
          leadingBlanks pair.2 = 0) ∧
      ((∀ mark ∈ comment, EndsSolid mark) →
        dedentLines comment (dedentLines comment block) = dedentLines comment block) ∧
      (dedentLines comment (dedentLines comment block) ≠ dedentLines comment block ↔
        (∀ line ∈ block, ¬ CountsForIndent comment line) ∧
          (∃ line ∈ dedentLines comment block, CountsForIndent comment line) ∧
          ∀ line ∈ dedentLines comment block, CountsForIndent comment line →
            leadingBlanks line ≠ 0) ∧
      dedentLines comment (dedentLines comment (dedentLines comment block)) =
        dedentLines comment (dedentLines comment block) ∧
      ((∃ line ∈ block, CountsForIndent comment line) →
        ∀ w : String, (∀ c ∈ w.toList, c = ' ' ∨ c = '\t') →
          dedentLines comment (block.map fun line => if isAllBlank line then line else w ++ line) =
            dedentLines comment block) := by
  refine ⟨⟨_, forall₂_movesLeft comment block⟩, fun hSome => ?_, dedentLines_again_of_endsSolid,
    dedentLines_again_ne_iff, ?_, fun hSome w hw => ?_⟩
  · obtain ⟨line, hLine, hCounts, hMargin⟩ := exists_margin hSome
    refine ⟨(line, shiftLeft (commonIndent comment block) line), ?_, hCounts, hMargin⟩
    rw [zip_dedentLines, List.mem_map]
    exact ⟨line, hLine, rfl⟩
  · by_cases hSome : ∃ line ∈ dedentLines comment block, CountsForIndent comment line
    · exact dedentLines_again_of_countsForIndent hSome
    · have hOnce : dedentLines comment (dedentLines comment block) = dedentLines comment block :=
        dedentLines_again_of_none fun line hLine hCounts => hSome ⟨line, hLine, hCounts⟩
      rw [hOnce, hOnce]
  · have hBlank : isAllBlank w = true := by
      rw [isAllBlank_iff]
      intro c hc
      rcases hw c hc with rfl | rfl <;> decide
    have hMoves : MovesRight w (fun line => if isAllBlank line then line else w ++ line) block := by
      intro line _
      dsimp only
      split
      next hLine => exact .inr ⟨hLine, hLine⟩
      next => exact .inl rfl
    simp only [← measures_iff_countsForIndent] at hSome
    exact hMoves.dedentLines_eq hBlank hSome

/-- A comment to the left of the lines that count, one to their right, and a blank line. -/
def commentedBlock : List String := ["    a ", " # x", "\t", "      # y", "      b"]

/-- A block with comments, moved left and then moved left again. -/
theorem dedentLines_moves_left_commented :
    (∀ mark ∈ some "#", EndsSolid mark) ∧
      (∃ line ∈ commentedBlock, CountsForIndent (some "#") line) ∧
      dedentLines (some "#") commentedBlock = ["a", "# x", "", "  # y", "  b"] ∧
      dedentLines (some "#") (dedentLines (some "#") commentedBlock) =
        dedentLines (some "#") commentedBlock ∧
      dedentLines (some "#") ["\t    a ", "\t # x", "\t", "\t      # y", "\t      b"] =
        dedentLines (some "#") commentedBlock := by
  have hMark : ∀ mark ∈ some "#", EndsSolid mark := by simp [EndsSolid, isBlank]
  have hCounts : ∃ line ∈ commentedBlock, CountsForIndent (some "#") line :=
    ⟨"    a ", List.mem_cons_self, measures_iff_countsForIndent.1 (by decide +kernel)⟩
  obtain ⟨-, -, hAgain, -, -, hRight⟩ := dedentLines_moves_left (some "#") commentedBlock
  refine ⟨hMark, hCounts, by decide +kernel, hAgain hMark, ?_⟩
  rw [← hRight hCounts "\t" (by simp)]
  decide +kernel

/-- A comment whose mark ends in a blank is none any more when it has lost this blank, and then it
is moved left. -/
theorem comment_mark_trimmed :
    dedentLines (some "# ") ["  # "] = ["  #"] ∧
      dedentLines (some "# ") (dedentLines (some "# ") ["  # "]) = ["#"] := by
  decide +kernel

/-- Behind other lines stands a blank one. -/
def EndsBlank (block : List String) : Prop :=
  ∃ front last, front ≠ [] ∧ block = front ++ [last] ∧ isAllBlank last = true

theorem dedent_eq (text : String) :
    dedent {} text = "\n".intercalate (dedentLines none (lines text)) := by
  simp [dedent]

theorem withoutReturn_of_endsSolid (h : EndsSolid line) : withoutReturn line = line := by
  rcases dropReturn_eq line.toList with hSame | hReturn
  · rw [withoutReturn, hSame, String.ofList_toList]
  · have hSolid := h '\r' (by rw [hReturn, List.getLast?_concat]; rfl)
    cases hSolid

/-- The lines of a text that is moved left, if its last line is `last` then. -/
theorem lines_dedent {text last : String} {front : List String}
    (h : dedentLines none (lines text) = front ++ [last]) :
    lines (dedent {} text) = front ++ if last = "" then [] else [last] := by
  have hEnds {line : String} (hLine : line ∈ front ++ [last]) : EndsSolid line :=
    endsSolid_of_mem_dedentLines (h ▸ hLine)
  have hSingle : ∀ line ∈ front ++ [last], '\n' ∉ line.toList := by
    intro line hLine hFeed
    rw [← h] at hLine
    obtain ⟨original, hOriginal, rfl⟩ := List.mem_map.1 hLine
    exact notMem_of_mem_lines hOriginal ((shiftLeft_sublist _ _).subset hFeed)
  have hReturns : front.map withoutReturn = front := by
    conv_rhs => rw [← List.map_id front]
    apply List.map_congr_left
    exact fun line hLine => withoutReturn_of_endsSolid (hEnds (List.mem_append_left _ hLine))
  rw [dedent_eq, h, lines_intercalate hSingle, hReturns]

theorem not_endsBlank_nil : ¬ EndsBlank [] := by
  rintro ⟨front, last, -, hBlock, -⟩
  simp at hBlock

/-- A block ends in a blank line behind others exactly if it has more than its last line and that
line is blank. -/
theorem endsBlank_concat_iff {last : String} :
    EndsBlank (block ++ [last]) ↔ block ≠ [] ∧ isAllBlank last = true := by
  constructor
  · rintro ⟨front, other, hFront, hBlock, hBlank⟩
    obtain ⟨rfl, hLast⟩ := List.append_inj' hBlock rfl
    obtain rfl := List.singleton_inj.1 hLast
    exact ⟨hFront, hBlank⟩
  · rintro ⟨hFront, hBlank⟩
    exact ⟨block, last, hFront, rfl, hBlank⟩

/-- A blank line at the end of a block stays there as an empty one. -/
theorem dedentLines_concat_of_blank {last : String} (h : isAllBlank last = true) :
    dedentLines comment (block ++ [last]) = dedentLines comment block ++ [""] := by
  have hIndent : commonIndent comment (block ++ [last]) = commonIndent comment block := by
    simp [commonIndent, measures, h]
  have hLast : shiftLeft (commonIndent comment block) last = "" := by rw [shiftLeft, if_pos h]
  rw [dedentLines, hIndent, List.map_append, List.map_singleton, hLast, dedentLines]

/-- Only blank lines become empty when they are moved left. -/
theorem shiftLeft_eq_empty_iff : shiftLeft n line = "" ↔ isAllBlank line = true := by
  constructor
  · intro hEmpty
    by_contra hSolid
    rw [isAllBlank_iff] at hSolid
    have hStripped := stripped_shiftLeft n hSolid
    rw [hEmpty] at hStripped
    exact hSolid (hStripped.blank_iff.1 blank_nil)
  · intro hBlank
    rw [shiftLeft, if_pos hBlank]

theorem EndsSolid.append (h : EndsSolid line) (hNe : line ≠ "") (before : String) :
    EndsSolid (before ++ line) := by
  intro c hc
  rw [String.toList_append, List.getLast?_append_of_ne_nil _ (by simpa using hNe)] at hc
  exact h c hc

/-- What ends in a solid character does not end in a line feed. -/
theorem EndsSolid.no_lineFeed {text : String} (h : EndsSolid text) : ¬ ∃ t, text = t ++ "\n" := by
  rintro ⟨t, rfl⟩
  have hSolid := h '\n' (by simp)
  cases hSolid

/-- A text whose last line is not blank does not end in a line feed when it is moved left, and then
moving it left again changes nothing. -/
theorem dedent_of_solid {text last : String} {front : List String}
    (hLines : lines text = front ++ [last]) (hSolid : isAllBlank last = false) :
    dedent {} (dedent {} text) = dedent {} text ∧ EndsSolid (dedent {} text) := by
  have hMoved : dedentLines none (lines text) =
      front.map (shiftLeft (commonIndent none (lines text))) ++
        [shiftLeft (commonIndent none (lines text)) last] := by
    conv_lhs => rw [dedentLines, hLines, List.map_append, List.map_singleton, ← hLines]
  have hNe : shiftLeft (commonIndent none (lines text)) last ≠ "" := by
    rw [ne_eq, shiftLeft_eq_empty_iff, hSolid]
    exact Bool.false_ne_true
  constructor
  · rw [dedent_eq (dedent {} text), lines_dedent hMoved, if_neg hNe, ← hMoved,
      dedentLines_again_of_endsSolid (by simp), ← dedent_eq]
  · rw [dedent_eq, hMoved]
    cases front with
    | nil => simpa using endsSolid_shiftLeft _ last
    | cons first rest =>
        rw [String.intercalate_append_of_ne_nil (by simp) (by simp)]
        exact (endsSolid_shiftLeft _ last).append hNe _

/-- A blank line at the end is an empty one when the text is moved left, so that it is not read
again as a line. -/
theorem dedent_of_blank {text last : String} {front : List String}
    (hLines : lines text = front ++ [last]) (hBlank : isAllBlank last = true) :
    dedent {} text = "\n".intercalate (dedentLines none front ++ [""]) ∧
      dedent {} (dedent {} text) = "\n".intercalate (dedentLines none front) := by
  have hMoved : dedentLines none (lines text) = dedentLines none front ++ [""] := by
    rw [hLines, dedentLines_concat_of_blank hBlank]
  refine ⟨by rw [dedent_eq, hMoved], ?_⟩
  rw [dedent_eq (dedent {} text), lines_dedent hMoved, if_pos rfl, List.append_nil,
    dedentLines_again_of_endsSolid (by simp)]

/-- Moving a text left twice is moving it left once, and there is no line feed at its end then, but
for texts whose last line is blank and not the only one. These end in a line feed, which is dropped
when they are moved left again. -/
theorem dedent_twice (text : String) :
    (¬ EndsBlank (lines text) →
      dedent {} (dedent {} text) = dedent {} text ∧ ¬ ∃ t, dedent {} text = t ++ "\n") ∧
      (EndsBlank (lines text) → dedent {} text = dedent {} (dedent {} text) ++ "\n") := by
  rcases List.eq_nil_or_concat (lines text) with hNone | ⟨front, last, hLines⟩
  · have hEmpty : dedent {} text = "" := by rw [dedent_eq, hNone]; rfl
    rw [hNone, hEmpty]
    exact ⟨fun _ => ⟨rfl, endsSolid_empty.no_lineFeed⟩, fun hEnds => absurd hEnds not_endsBlank_nil⟩
  rw [List.concat_eq_append] at hLines
  rw [hLines, endsBlank_concat_iff]
  cases hBlank : isAllBlank last with
  | false =>
      obtain ⟨hAgain, hSolid⟩ := dedent_of_solid hLines hBlank
      exact ⟨fun _ => ⟨hAgain, hSolid.no_lineFeed⟩, fun hEnds => absurd hEnds.2 Bool.false_ne_true⟩
  | true =>
      obtain ⟨hOnce, hTwice⟩ := dedent_of_blank hLines hBlank
      rw [hTwice, hOnce]
      cases front with
      | nil =>
          refine ⟨fun _ => ⟨rfl, ?_⟩, fun hEnds => absurd rfl hEnds.1⟩
          exact endsSolid_empty.no_lineFeed
      | cons first rest =>
          refine ⟨fun hEnds => absurd ⟨List.cons_ne_nil _ _, rfl⟩ hEnds, fun _ => ?_⟩
          rw [String.intercalate_append_of_ne_nil (by simp [dedentLines]) (by simp)]
          simp

/-- Lines that are moved left once, with a blank one between them. -/
theorem dedent_twice_indented :
    ¬ EndsBlank (lines "  a\n \n    b\n") ∧ dedent {} "  a\n \n    b\n" = "a\n\n  b" ∧
      dedent {} "a\n\n  b" = "a\n\n  b" := by
  have hLines : lines "  a\n \n    b\n" = ["  a", " "] ++ ["    b"] := by decide +kernel
  have hEnds : ¬ EndsBlank (lines "  a\n \n    b\n") := by
    rw [hLines, endsBlank_concat_iff]
    exact fun h => absurd h.2 (by decide +kernel)
  have hOnce : dedent {} "  a\n \n    b\n" = "a\n\n  b" := by decide +kernel
  have hTwice := ((dedent_twice "  a\n \n    b\n").1 hEnds).1
  rw [hOnce] at hTwice
  exact ⟨hEnds, hOnce, hTwice⟩

/-- A line feed at the end, which is dropped when the text is moved left again. -/
theorem dedent_keeps_lineFeed :
    dedent {} "a\n\n" = "a\n" ∧ dedent {} (dedent {} "a\n\n") = "a" := by
  decide +kernel

end Metagen.Text
