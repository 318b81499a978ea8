import Metagen.Proofs.Text.Words
import Metagen.Text.Lines

/-! Lines of a text. No line holds a line feed, and no character that is not blank is lost when a
text is cut into lines. -/

namespace Metagen

open Text

/-- Parts between line feeds hold no line feed. -/
theorem notMem_of_mem_splitOn {cs part : List Char} (h : part ∈ cs.splitOn '\n') :
    '\n' ∉ part := by
  induction cs generalizing part with
  | nil =>
      rw [List.splitOn_nil, List.mem_singleton] at h
      simp [h]
  | cons c cs ih =>
      rw [List.splitOn_cons_eq_if_modifyHead] at h
      split at h
      next =>
        rcases List.mem_cons.1 h with rfl | h
        · simp
        · exact ih h
      next hc =>
        cases hParts : cs.splitOn '\n' with
        | nil => simp [hParts] at h
        | cons first others =>
            rw [hParts, List.modifyHead_cons] at h
            rcases List.mem_cons.1 h with rfl | h
            · have hFirst := ih (hParts ▸ List.mem_cons_self)
              simp only [List.mem_cons, not_or]
              exact ⟨fun hEq => hc (by simp [← hEq]), hFirst⟩
            · exact ih (hParts ▸ List.mem_cons_of_mem _ h)

theorem sublist_dropTrailing (p : Char → Bool) (cs : List Char) :
    (dropTrailing p cs).Sublist cs := by
  have h := (List.dropWhile_sublist (l := cs.reverse) p).reverse
  rwa [List.reverse_reverse] at h

/-- A line that is moved left keeps some of its characters. -/
theorem shiftLeft_sublist (n : Nat) (line : String) :
    (shiftLeft n line).toList.Sublist line.toList := by
  unfold shiftLeft
  split
  · exact List.nil_sublist _
  · unfold trimEnd
    rw [String.toList_ofList, String.toList_ofList]
    exact (sublist_dropTrailing _ _).trans (List.drop_sublist _ _)

/-- Splitting at line feeds loses nothing but the line feeds. -/
theorem exists_mem_splitOn {c : Char} {cs : List Char} (h : c ∈ cs) (hFeed : c ≠ '\n') :
    ∃ part ∈ cs.splitOn '\n', c ∈ part := by
  induction cs with
  | nil => cases h
  | cons first cs ih =>
      rw [List.splitOn_cons_eq_if_modifyHead]
      split
      next hEq =>
        rcases List.mem_cons.1 h with rfl | h
        · exact absurd (by simpa using hEq) hFeed
        · obtain ⟨part, hPart, hMem⟩ := ih h
          exact ⟨part, List.mem_cons_of_mem _ hPart, hMem⟩
      next =>
        obtain ⟨head, others, hParts⟩ := List.exists_cons_of_ne_nil (List.splitOn_ne_nil '\n' cs)
        rw [hParts, List.modifyHead_cons]
        rcases List.mem_cons.1 h with rfl | h
        · exact ⟨c :: head, List.mem_cons_self, List.mem_cons_self⟩
        · obtain ⟨part, hPart, hMem⟩ := ih h
          rcases List.mem_cons.1 (hParts ▸ hPart) with rfl | hPart
          · exact ⟨first :: part, List.mem_cons_self, List.mem_cons_of_mem _ hMem⟩
          · exact ⟨part, List.mem_cons_of_mem _ hPart, hMem⟩

/-- What is dropped at the end of a part is a carriage return. -/
theorem dropReturn_eq (cs : List Char) : dropReturn cs = cs ∨ cs = dropReturn cs ++ ['\r'] := by
  unfold dropReturn
  split
  next rest hRest =>
    refine .inr ?_
    rw [← List.reverse_cons, ← hRest, List.reverse_reverse]
  next => exact .inl rfl

namespace Text

theorem lines_of_splitOn {text : String} {front : List (List Char)} {last : List Char}
    (h : text.toList.splitOn '\n' = front ++ [last]) :
    lines text = front.map (fun part => .ofList (dropReturn part)) ++
      if last = [] then [] else [.ofList last] := by
  unfold lines
  dsimp only
  rw [h, List.getLast?_concat, List.dropLast_concat]
  cases last with
  | nil => simp
  | cons c cs => simp

theorem exists_splitOn (text : String) :
    ∃ front last, text.toList.splitOn '\n' = front ++ [last] :=
  ⟨_, _, (List.dropLast_concat_getLast (List.splitOn_ne_nil '\n' text.toList)).symm⟩

/-- A line holds no line feed. -/
theorem notMem_of_mem_lines {text line : String} (h : line ∈ lines text) : '\n' ∉ line.toList := by
  obtain ⟨front, last, hSplit⟩ := exists_splitOn text
  have hPart {part : List Char} (hMem : part ∈ front ++ [last]) : '\n' ∉ part :=
    notMem_of_mem_splitOn (hSplit ▸ hMem)
  rw [lines_of_splitOn hSplit] at h
  rcases List.mem_append.1 h with hFront | hLast
  · obtain ⟨part, hMem, rfl⟩ := List.mem_map.1 hFront
    have hNone := hPart (List.mem_append_left _ hMem)
    rw [String.toList_ofList]
    rcases dropReturn_eq part with hEq | hEq
    · rwa [hEq]
    · rw [hEq] at hNone
      exact fun hIn => hNone (List.mem_append_left _ hIn)
  · split at hLast
    · cases hLast
    · rw [List.mem_singleton.1 hLast, String.toList_ofList]
      exact hPart (List.mem_append_right _ (List.mem_singleton_self last))

/-- A character that is not blank is on a line. -/
theorem exists_mem_lines {text : String} {c : Char} (h : c ∈ text.toList)
    (hSolid : isBlank c = false) : ∃ line ∈ lines text, c ∈ line.toList := by
  have hNot {other : Char} (hOther : isBlank other = true) : c ≠ other := by
    rintro rfl
    rw [hSolid] at hOther
    cases hOther
  obtain ⟨front, last, hSplit⟩ := exists_splitOn text
  obtain ⟨part, hPart, hMem⟩ := exists_mem_splitOn h (hNot rfl)
  rw [lines_of_splitOn hSplit]
  rw [hSplit] at hPart
  rcases List.mem_append.1 hPart with hFront | hLast
  · refine ⟨.ofList (dropReturn part), List.mem_append_left _ (List.mem_map_of_mem hFront), ?_⟩
    rw [String.toList_ofList]
    rcases dropReturn_eq part with hEq | hEq
    · rwa [hEq]
    · rw [hEq] at hMem
      refine (List.mem_append.1 hMem).resolve_right fun hReturn => ?_
      exact hNot rfl (List.mem_singleton.1 hReturn)
  · obtain rfl := List.mem_singleton.1 hLast
    refine ⟨.ofList part, List.mem_append_right _ ?_, by rwa [String.toList_ofList]⟩
    rw [if_neg (List.ne_nil_of_mem hMem)]
    exact List.mem_singleton_self _

/-- A literal is cut out of the lines of its text: only a blank line is dropped in front, and one
behind only if others are left. -/
theorem exists_literalLines (text : String) : ∃ body, body <:+ lines text ∧
    (∀ line ∈ lines text, isAllBlank line = false → line ∈ body) ∧
    (literalLines text = body ∨ 1 < body.length ∧ literalLines text = body.dropLast) := by
  unfold literalLines
  cases lines text with
  | nil => exact ⟨[], List.suffix_refl [], nofun, .inl rfl⟩
  | cons first rest =>
      by_cases hBlank : isAllBlank first = true
      · refine ⟨rest, List.suffix_cons first rest, fun line hLine hSolid => ?_, ?_⟩
        · refine (List.mem_cons.1 hLine).resolve_left ?_
          rintro rfl
          rw [hBlank] at hSolid
          cases hSolid
        · simp only [if_pos hBlank]
          grind
      · refine ⟨first :: rest, List.suffix_refl _, fun _ hLine _ => hLine, ?_⟩
        simp only [if_neg hBlank]
        grind

/-- A line of a literal is a line of its text: at most the first and the last one are dropped. -/
theorem mem_lines_of_mem_literalLines {text line : String} (h : line ∈ literalLines text) :
    line ∈ lines text := by
  obtain ⟨body, hSuffix, -, hEq | ⟨-, hEq⟩⟩ := exists_literalLines text
  · exact hSuffix.subset (hEq ▸ h)
  · exact hSuffix.subset (body.dropLast_subset (hEq ▸ h))

/-- A literal with a character that is not blank has a line. -/
theorem literalLines_ne_nil {text : String} {c : Char} (h : c ∈ text.toList)
    (hSolid : isBlank c = false) : literalLines text ≠ [] := by
  obtain ⟨line, hLine, hMem⟩ := exists_mem_lines h hSolid
  have hLineSolid : isAllBlank line = false := by
    rw [Bool.eq_false_iff, ne_eq, isAllBlank_iff]
    intro hBlank
    rw [hBlank c hMem] at hSolid
    cases hSolid
  obtain ⟨body, -, hKept, hEq | ⟨hLength, hEq⟩⟩ := exists_literalLines text
  · rw [hEq]
    exact List.ne_nil_of_mem (hKept line hLine hLineSolid)
  · rw [hEq, ← List.length_pos_iff, List.length_dropLast]
    omega

end Text

end Metagen
