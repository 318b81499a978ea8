import Metagen.Proofs.Text.Lines
import Metagen.Source.File
import Mathlib.Data.List.Sort
import Mathlib.Data.String.Basic

/-! Lines of a source by their numbers. The offsets that are kept cut a text at its line feeds, so
that a line is found under its number, and all lines and the lines around one are made of just those
that are found. -/

namespace Metagen

open Text

variable {cs part : List Char} {n : Nat}

theorem startsBehind_lineFeed (here : String.Pos.Raw) {c : Char} (hc : (c == '\n') = true)
    (cs : List Char) :
    startsBehind here (c :: cs) = (here + c) :: startsBehind (here + c) cs := if_pos hc

theorem startsBehind_other (here : String.Pos.Raw) {c : Char} (hc : (c == '\n') = false)
    (cs : List Char) : startsBehind here (c :: cs) = startsBehind (here + c) cs :=
  if_neg (Bool.eq_false_iff.1 hc)

/-- Each line feed starts one more line behind a place. -/
theorem length_startsBehind (here : String.Pos.Raw) (cs : List Char) :
    (startsBehind here cs).length = cs.count '\n' := by
  induction cs generalizing here with
  | nil => rfl
  | cons c cs ih =>
      rw [startsBehind, List.count_cons]
      split
      · rw [List.length_cons, ih]
      · rw [ih, Nat.add_zero]

/-- A text has one more line than it has line feeds. -/
theorem length_splitOn (cs : List Char) :
    (cs.splitOn '\n').length = cs.count '\n' + 1 := by
  induction cs with
  | nil => rfl
  | cons c cs ih =>
      rw [List.splitOn_cons_eq_if_modifyHead, List.count_cons]
      split
      · rw [List.length_cons, ih]
      · rw [List.length_modifyHead, ih, Nat.add_zero]

/-- A piece of a text lies at the offset that is kept for it, and the next one that is kept, if
there is one, lies one byte behind its end. -/
structure KeptAt (here : String.Pos.Raw) (cs : List Char) (n : Nat)
    (before part behind : List Char) : Prop where
  parts : cs = before ++ part ++ behind
  start : (here :: startsBehind here cs)[n]? = some ⟨here.byteIdx + String.utf8Len before⟩
  stop : (behind = [] ∧ (startsBehind here cs)[n]? = none) ∨ (startsBehind here cs)[n]? =
    some ⟨here.byteIdx + String.utf8Len before + String.utf8Len part + 1⟩

theorem byteIdx_add_utf8Len (here : String.Pos.Raw) (c : Char) (before : List Char) :
    (here + c).byteIdx + String.utf8Len before =
      here.byteIdx + String.utf8Len (c :: before) := by
  rw [String.utf8Len_cons, String.Pos.Raw.byteIdx_add_char]
  omega

/-- A first piece gets longer by a character in front of it. -/
theorem KeptAt.cons_first {here : String.Pos.Raw} {c : Char} {before behind : List Char}
    (h : KeptAt (here + c) cs 0 before part behind) (hc : (c == '\n') = false) :
    KeptAt here (c :: cs) 0 [] (c :: part) behind := by
  have hBefore : before = [] := by
    have hStart := h.start
    rw [List.getElem?_cons_zero, Option.some.injEq, String.Pos.Raw.ext_iff] at hStart
    have hNone : String.utf8Len before = 0 := by simpa using hStart
    simpa using hNone
  subst hBefore
  refine ⟨congrArg _ h.parts, rfl, ?_⟩
  rw [startsBehind_other here hc, String.utf8Len_nil, Nat.add_zero, ← byteIdx_add_utf8Len]
  exact h.stop

/-- A later piece stays as it is when a character is added in front of all. -/
theorem KeptAt.cons_later {here : String.Pos.Raw} {c : Char} {before behind : List Char} {m : Nat}
    (h : KeptAt (here + c) cs n before part behind)
    (hStarts : ∀ k, (startsBehind here (c :: cs))[m + k]? =
      ((here + c) :: startsBehind (here + c) cs)[n + k]?) :
    KeptAt here (c :: cs) (m + 1) (c :: before) part behind := by
  have hLength := byteIdx_add_utf8Len here c before
  refine ⟨congrArg _ h.parts, ?_, ?_⟩
  · rw [List.getElem?_cons_succ, ← hLength, ← h.start]
    exact hStarts 0
  · rw [← hLength]
    have hStop := h.stop
    rw [← List.getElem?_cons_succ (a := here + c)] at hStop
    rwa [hStarts 1]

/-- Every piece between line feeds is found by the offsets. -/
theorem exists_keptAt (here : String.Pos.Raw) (h : (cs.splitOn '\n')[n]? = some part) :
    ∃ before behind, KeptAt here cs n before part behind := by
  induction cs generalizing here n part with
  | nil =>
      rw [List.splitOn_nil, List.getElem?_singleton] at h
      split at h
      next hn =>
        cases h
        subst hn
        exact ⟨[], [], rfl, by simp, .inl ⟨rfl, rfl⟩⟩
      next => cases h
  | cons c cs ih =>
      rw [List.splitOn_cons_eq_if_modifyHead] at h
      cases hc : c == '\n' with
      | true =>
          rw [if_pos hc] at h
          cases n with
          | zero =>
              cases h
              obtain rfl : c = '\n' := by simpa using hc
              refine ⟨[], '\n' :: cs, rfl, by simp, .inr ?_⟩
              rw [startsBehind_lineFeed here hc]
              rfl
          | succ n =>
              obtain ⟨before, behind, hKept⟩ := ih (here + c) h
              refine ⟨c :: before, behind, hKept.cons_later fun k => ?_⟩
              rw [startsBehind_lineFeed here hc]
      | false =>
          obtain ⟨first, others, hParts⟩ :=
            List.exists_cons_of_ne_nil (List.splitOn_ne_nil '\n' cs)
          rw [hc, if_neg Bool.false_ne_true, hParts, List.modifyHead_cons] at h
          cases n with
          | zero =>
              cases h
              have hFirst : (cs.splitOn '\n')[0]? = some first := by rw [hParts]; rfl
              obtain ⟨before, behind, hKept⟩ := ih (here + c) hFirst
              exact ⟨[], behind, hKept.cons_first hc⟩
          | succ n =>
              rw [List.getElem?_cons_succ, ← List.getElem?_cons_succ (a := first), ← hParts] at h
              obtain ⟨before, behind, hKept⟩ := ih (here + c) h
              refine ⟨c :: before, behind, hKept.cons_later fun k => ?_⟩
              rw [startsBehind_other here hc, Nat.add_right_comm, List.getElem?_cons_succ]

/-- What is between two numbers in a range is a range. -/
theorem filter_range' (first count low high : Nat) :
    (List.range' first count).filter (fun k => low ≤ k ∧ k ≤ high) =
      List.range' (max first low) (min (first + count) (high + 1) - max first low) := by
  apply List.Pairwise.eq_of_mem_iff (r := (· < ·))
  · exact (List.pairwise_lt_range' 1).sublist List.filter_sublist
  · exact List.pairwise_lt_range' 1
  · intro k
    simp only [List.mem_filter, List.mem_range'_1, decide_eq_true_eq]
    omega

namespace SourceFile

variable {file : SourceFile} {line : String}

/-- A piece is cut out of its text from its offset up to the line feed in front of the next one, or
up to the end. -/
theorem extract_eq {before behind : List Char}
    (h : KeptAt 0 file.text.toList n before part behind) :
    String.Pos.Raw.extract file.text ⟨String.utf8Len before⟩
      (stopIn file.text file.starts (n + 1)) = .ofList part := by
  have hText : file.text = .ofList (before ++ part ++ behind) := by
    rw [← h.parts, String.ofList_toList]
  have hStop : stopIn file.text file.starts (n + 1) =
      ⟨String.utf8Len before + String.utf8Len part⟩ := by
    rw [stopIn, file.starts_eq, List.getElem?_toArray, List.getElem?_cons_succ]
    rcases h.stop with ⟨hEnd, hNone⟩ | hNext
    · rw [hNone, hText, hEnd, List.append_nil, String.rawEndPos_ofList, String.utf8Len_append]
    · rw [hNext]
      simp
  rw [hStop, hText]
  exact String.extract_of_valid before part behind

/-- What is cut out of a text by the offsets is one of the pieces between its line feeds. -/
theorem line?_eq (file : SourceFile) (n : Nat) :
    file.line? n = if n = 0 then none
      else (file.text.toList.splitOn '\n')[n - 1]?.map fun part =>
        .ofList (dropTrailing (· == '\r') part) := by
  cases n with
  | zero => rfl
  | succ n =>
      have hStarts : file.starts[n]? = (0 :: startsBehind 0 file.text.toList)[n]? := by
        rw [file.starts_eq, List.getElem?_toArray]
      rw [if_neg (Nat.succ_ne_zero n), Nat.add_sub_cancel, line?, hStarts]
      cases hPart : (file.text.toList.splitOn '\n')[n]? with
      | none =>
          rw [List.getElem?_eq_none_iff, length_splitOn, ← length_startsBehind 0,
            ← List.length_cons (a := 0)] at hPart
          rw [List.getElem?_eq_none hPart]
          rfl
      | some part =>
          obtain ⟨before, behind, hKept⟩ := exists_keptAt 0 hPart
          have hStart : (0 :: startsBehind 0 file.text.toList)[n]? =
              some ⟨String.utf8Len before⟩ := by simpa using hKept.start
          rw [hStart, Option.map_some, Option.map_some, extract_eq hKept, String.toList_ofList]

/-- Carriage returns are dropped at the end and nowhere else, as many as there are. -/
theorem dropTrailing_return_eq_iff {kept : List Char} : dropTrailing (· == '\r') cs = kept ↔
    (∃ k, cs = kept ++ List.replicate k '\r') ∧ kept.getLast? ≠ some '\r' := by
  rw [dropTrailing, List.reverse_eq_iff]
  constructor
  · intro hKept
    refine ⟨⟨(cs.reverse.takeWhile (· == '\r')).length, ?_⟩, ?_⟩
    · have hReturns : cs.reverse.takeWhile (· == '\r') =
          List.replicate (cs.reverse.takeWhile (· == '\r')).length '\r' :=
        List.eq_replicate_of_mem fun c hc => by simpa using List.mem_takeWhile_imp hc
      rw [← List.reverse_inj, List.reverse_append, List.reverse_replicate, ← hKept, ← hReturns,
        List.takeWhile_append_dropWhile]
    · rw [← List.head?_reverse, ← hKept]
      intro hReturn
      have hNot := List.head?_dropWhile_not (· == '\r') cs.reverse
      simp [hReturn] at hNot
  · rintro ⟨⟨k, rfl⟩, hEnd⟩
    rw [List.reverse_append, List.reverse_replicate,
      List.dropWhile_append_of_pos (by simp [List.mem_replicate])]
    rw [← List.head?_reverse] at hEnd
    cases hKept : kept.reverse with
    | nil => rfl
    | cons c rest =>
        rw [hKept, List.head?_cons] at hEnd
        exact List.dropWhile_cons_of_neg (by simpa using hEnd)

/-- What line `n` of a text is: the `n`-th of the pieces between line feeds, without the carriage
returns at its end. -/
structure IsLine (text : String) (n : Nat) (line : String) : Prop where
  pos : 1 ≤ n
  piece : ∃ returns,
    (text.toList.splitOn '\n')[n - 1]? = some (line.toList ++ List.replicate returns '\r')
  ending : line.toList.getLast? ≠ some '\r'

/-- The line found under a number is what stands between two neighbouring line feeds, without
carriage returns at its end. -/
theorem line?_eq_some_iff : file.line? n = some line ↔ IsLine file.text n line := by
  rw [line?_eq]
  by_cases hn : n = 0
  · rw [if_pos hn]
    exact ⟨nofun, fun h => absurd h.pos (by omega)⟩
  · rw [if_neg hn, Option.map_eq_some_iff]
    constructor
    · rintro ⟨part, hPart, rfl⟩
      obtain ⟨⟨k, hk⟩, hEnd⟩ := dropTrailing_return_eq_iff.1 (rfl : dropTrailing _ part = _)
      refine ⟨by omega, ⟨k, ?_⟩, ?_⟩
      · rw [String.toList_ofList, ← hk, hPart]
      · rwa [String.toList_ofList]
    · rintro ⟨-, ⟨k, hPart⟩, hEnd⟩
      refine ⟨_, hPart, ?_⟩
      rw [dropTrailing_return_eq_iff.2 ⟨⟨k, rfl⟩, hEnd⟩, String.ofList_toList]

/-- A line holds no line feed. -/
theorem notMem_of_line? (h : file.line? n = some line) : '\n' ∉ line.toList := by
  obtain ⟨returns, hPiece⟩ := (line?_eq_some_iff.1 h).piece
  have hNone := notMem_of_mem_splitOn (List.mem_of_getElem? hPiece)
  exact fun hFeed => hNone (List.mem_append_left _ hFeed)

/-- Lines are numbered from one, and there is one more of them than there are line feeds. -/
theorem exists_line_iff :
    (∃ line, file.line? n = some line) ↔ 1 ≤ n ∧ n ≤ file.text.toList.count '\n' + 1 := by
  rw [← Option.isSome_iff_exists, line?_eq]
  by_cases hn : n = 0
  · simp [hn]
  · rw [if_neg hn, Option.isSome_map, Option.isSome_iff_ne_none, ne_eq, List.getElem?_eq_none_iff,
      length_splitOn]
    omega

/-- The text ends in a line feed. -/
def EndsLine (text : String) : Prop := text.toList.getLast? = some '\n'

instance (text : String) : Decidable (EndsLine text) :=
  inferInstanceAs (Decidable (text.toList.getLast? = some '\n'))

/-- Every line feed ends a line, and behind the last one there is a line if there is any text, or no
other line. -/
theorem lineCount_eq (file : SourceFile) : file.lineCount =
    file.text.toList.count '\n' + if EndsLine file.text then 0 else 1 := by
  have hSize : file.starts.size = file.text.toList.count '\n' + 1 := by
    rw [file.starts_eq, List.size_toArray, List.length_cons, length_startsBehind]
  unfold lineCount
  dsimp only
  rw [hSize]
  by_cases hEnd : EndsLine file.text
  · have hFeed : 0 < file.text.toList.count '\n' :=
      List.count_pos_iff.2 (List.mem_of_getLast? hEnd)
    rw [if_pos hEnd, if_pos]
    · rfl
    · rw [Bool.and_eq_true, decide_eq_true_eq, beq_iff_eq]
      exact ⟨by omega, hEnd⟩
  · rw [if_neg hEnd, if_neg]
    rw [Bool.and_eq_true, beq_iff_eq]
    exact fun h => hEnd h.2

/-- What starts behind a line feed at the end of a text is empty. -/
theorem line?_behind (h : EndsLine file.text) : file.line? (file.lineCount + 1) = some "" := by
  obtain ⟨front, hText⟩ : ∃ front, file.text.toList = front ++ ['\n'] :=
    List.getLast?_eq_some_iff.1 h
  have hPieces : file.text.toList.splitOn '\n' = front.splitOn '\n' ++ [[]] := by
    rw [hText]
    exact List.splitOnP_append_cons front [] (by decide)
  have hCount : file.lineCount = (front.splitOn '\n').length := by
    rw [lineCount_eq, if_pos h, hText, List.count_append, length_splitOn]
    rfl
  rw [line?_eq, if_neg (Nat.succ_ne_zero _), Nat.add_sub_cancel, hPieces, hCount,
    List.getElem?_concat_length]
  rfl

/-- A line that counts is there. -/
theorem exists_line (hPos : 1 ≤ n) (hLe : n ≤ file.lineCount) :
    ∃ line, file.line? n = some line := by
  rw [exists_line_iff]
  rw [lineCount_eq] at hLe
  split at hLe <;> omega

def numbered (file : SourceFile) : List (Nat × String) :=
  (List.range' 1 file.lines.length).zip file.lines

/-- A line that counts, by its number. -/
def lineAt (file : SourceFile) (n : Nat) : String := (file.line? n).getD ""

/-- The line of a number within the file is found, and it is the one that counts. -/
theorem line?_eq_lineAt (hPos : 1 ≤ n) (hLe : n ≤ file.lineCount) :
    file.line? n = some (file.lineAt n) := by
  obtain ⟨line, hLine⟩ := exists_line hPos hLe
  rw [lineAt, hLine, Option.getD_some]

/-- The lines in order are those that are found by their numbers, from the first to the last that
counts. -/
theorem lines_eq (file : SourceFile) :
    file.lines = (List.range' 1 file.lineCount).map file.lineAt := by
  rw [lines, List.range'_eq_map_range, List.map_map, ← List.filterMap_eq_map]
  apply List.filterMap_congr
  intro i hi
  rw [List.mem_range] at hi
  rw [line?_eq_lineAt (by omega) (by omega)]
  simp [Nat.add_comm]

@[simp] theorem length_lines (file : SourceFile) : file.lines.length = file.lineCount := by
  rw [lines_eq, List.length_map, List.length_range']

theorem numbered_eq (file : SourceFile) : file.numbered =
    (List.range' 1 file.lineCount).map fun k => (k, file.lineAt k) := by
  rw [numbered, length_lines, lines_eq]
  conv_lhs => rw [← List.map_id (List.range' 1 file.lineCount)]
  rw [List.map_map, List.zip_map']
  rfl

/-- Every number within the file stands beside its line. -/
theorem mem_numbered (hPos : 1 ≤ n) (hLe : n ≤ file.lineCount) :
    (n, file.lineAt n) ∈ file.numbered := by
  rw [numbered_eq]
  exact List.mem_map_of_mem (List.mem_range'_1.2 ⟨hPos, by omega⟩)

theorem ascending_numbered (file : SourceFile) : (file.numbered.map (·.1)).Pairwise (· < ·) := by
  rw [numbered_eq, List.map_map]
  exact List.pairwise_map.2 (List.pairwise_lt_range' 1)

/-- The window around a line is cut out of the numbered lines. -/
theorem window_eq (file : SourceFile) (n margin : Nat) : file.window n margin =
    file.numbered.filter fun entry => n ≤ entry.1 + margin ∧ entry.1 ≤ n + margin := by
  have hFound : file.window n margin =
      (List.range' (max 1 (n - margin))
        (min (n + margin) file.lineCount + 1 - max 1 (n - margin))).map
          fun k => (k, file.lineAt k) := by
    rw [window, ← List.filterMap_eq_map]
    apply List.filterMap_congr
    intro k hk
    rw [List.mem_range'_1] at hk
    rw [line?_eq_lineAt (by omega) (by omega)]
    rfl
  have hNear : (fun k => decide (n ≤ k + margin ∧ k ≤ n + margin)) =
      fun k => decide (n - margin ≤ k ∧ k ≤ n + margin) := by
    funext k
    rw [decide_eq_decide]
    omega
  rw [hFound, numbered_eq, List.filter_map]
  change _ = List.map _ (List.filter (fun k => decide (n ≤ k + margin ∧ k ≤ n + margin)) _)
  rw [hNear, filter_range']
  congr 2
  omega

/-- The lines of a file in their order, and what is found under their numbers. -/
structure FindsLines (file : SourceFile) : Prop where
  /-- What is found under a number is the piece of the text with that number. -/
  found_iff (n : Nat) (line : String) : file.line? n = some line ↔ IsLine file.text n line
  /-- Something is found under the numbers of the lines, and under one more if the text ends in a
  line feed. -/
  exists_iff (n : Nat) : (∃ line, file.line? n = some line) ↔
    1 ≤ n ∧ (n ≤ file.lineCount ∨ EndsLine file.text ∧ n = file.lineCount + 1)
  count : file.lineCount = file.text.toList.count '\n' + if EndsLine file.text then 0 else 1
  behind (h : EndsLine file.text) : file.line? (file.lineCount + 1) = some ""
  length_lines : file.lines.length = file.lineCount
  lines (i : Nat) (h : i < file.lineCount) : file.lines[i]? = file.line? (i + 1)
  ascending : (file.numbered.map (·.1)).Pairwise (· < ·)
  /-- The window around a line has the lines near by. -/
  window (n margin : Nat) : file.window n margin =
    file.numbered.filter fun entry => n ≤ entry.1 + margin ∧ entry.1 ≤ n + margin
  /-- Sums may be cut off at a number that no line exceeds, such as the largest word. -/
  cutOff (n margin largest : Nat) (h : file.lineCount ≤ largest) : file.window n margin =
    file.numbered.filter fun entry => n - margin ≤ entry.1 ∧ entry.1 ≤ min (n + margin) largest

/-- Lines are found under their numbers, all lines are those that count, and a window is made of
those that are near by. What starts behind a line feed at the end is found as an empty line,
although it does not count. -/
theorem finds_lines (file : SourceFile) : file.FindsLines where
  found_iff _ _ := line?_eq_some_iff
  exists_iff n := by
    rw [exists_line_iff, lineCount_eq]
    split
    next hEnd => simp only [hEnd, true_and, Nat.add_zero]; omega
    next hEnd => simp only [hEnd, false_and, or_false]
  count := file.lineCount_eq
  behind := line?_behind
  length_lines := file.length_lines
  lines i h := by
    rw [lines_eq, List.getElem?_map, List.getElem?_range' h, line?_eq_lineAt (by omega) (by omega)]
    simp [Nat.add_comm]
  ascending := file.ascending_numbered
  window := file.window_eq
  cutOff n margin largest h := by
    rw [window_eq]
    apply List.filter_congr
    intro entry hEntry
    obtain ⟨k, hk, rfl⟩ := List.mem_map.1 (file.numbered_eq ▸ hEntry)
    rw [List.mem_range'_1] at hk
    rw [decide_eq_decide]
    dsimp only
    omega

/-- A line feed at the end does not open another line, but one more is found. -/
theorem found_after_lineFeed :
    (ofText "a.c" "a\n").lineCount = 1 ∧ (ofText "a.c" "a\n").line? 2 = some "" := by
  decide +kernel

end SourceFile

end Metagen
