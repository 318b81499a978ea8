import Metagen.Emission.Chain
import Metagen.Proofs.Emission.Layout
import Metagen.Proofs.Text.Words

/-! Headers of definitions and of the branches of chains: the keyword that such a header starts
with, and what follows from it for the scope. -/

namespace Metagen.Emission

open Text

theorem takeWhile_isIdentChar_append {word rest : List Char}
    (hWord : ∀ c ∈ word, isIdentChar c = true) (hRest : ∀ c ∈ rest.head?, isIdentChar c = false) :
    (word ++ rest).takeWhile isIdentChar = word := by
  rw [List.takeWhile_append_of_pos hWord]
  cases rest with
  | nil => exact List.append_nil word
  | cons c cs => rw [List.takeWhile_cons_of_neg (by simp [hRest c rfl]), List.append_nil]

theorem toList_trimStart_of_solid {text : String} {c : Char} {cs : List Char}
    (hText : text.toList = c :: cs) (hSolid : isBlank c = false) :
    (trimStart text).toList = c :: cs := by
  rw [trimStart, String.toList_ofList, hText, dropWhile_cons_of_solid hSolid]

/-- The keyword of a preprocessor line. -/
theorem leadingKeyword_of_directive {header : String} (word rest : List Char)
    (hHeader : header.toList = '#' :: (word ++ rest)) (hWord : word.all isIdentChar = true)
    (hRest : ∀ c ∈ rest.head?, isIdentChar c = false) :
    leadingKeyword header = .ofList ('#' :: word) := by
  unfold leadingKeyword
  rw [toList_trimStart_of_solid hHeader (by decide)]
  change String.ofList ('#' :: (word ++ rest).takeWhile isIdentChar) = _
  rw [takeWhile_isIdentChar_append (List.all_eq_true.1 hWord) hRest]

/-- The keyword of a line of code. -/
theorem leadingKeyword_of_word {header : String} (first : Char) (word rest : List Char)
    (hHeader : header.toList = first :: word ++ rest)
    (hWord : (first :: word).all isIdentChar = true)
    (hRest : ∀ c ∈ rest.head?, isIdentChar c = false) :
    leadingKeyword header = .ofList (first :: word) := by
  have hAll := List.all_eq_true.1 hWord
  have hFirst : isIdentChar first = true := hAll first (.head word)
  unfold leadingKeyword
  rw [toList_trimStart_of_solid hHeader (isBlank_of_isIdentChar hFirst)]
  split
  case h_1 heq =>
    cases heq
    cases hFirst
  case h_2 => exact congrArg String.ofList (takeWhile_isIdentChar_append hAll hRest)

theorem leadingKeyword_of_blank {header : String} (h : Blank header.toList) :
    leadingKeyword header = "" := by
  have hNone : trimStart header = "" := by
    rw [trimStart, List.dropWhile_eq_nil_iff.2 h]
  unfold leadingKeyword
  rw [hNone]
  rfl

theorem inferFrom_of_define {header : String} (h : leadingKeyword header = "#define") :
    inferFrom header = { definesMacro := true } := by
  unfold inferFrom
  rw [h]
  rfl

/-- Just the scopes with this keyword are definitions. -/
theorem definesMacro_side_iff {scope : Scope} : scope.side.definesMacro = true ↔
    ∃ header, scope.header = some header ∧ leadingKeyword header = "#define" := by
  have hSide : scope.side.definesMacro = (infer scope.header).definesMacro := rfl
  rw [hSide]
  cases scope.header with
  | none => simp [infer, braces]
  | some header =>
      have hInfer : (infer (some header)).definesMacro = true ↔
          leadingKeyword header = "#define" := by
        refine ⟨fun h => ?_, fun h => ?_⟩
        · by_contra hOther
          unfold infer inferFrom at h
          simp only [beq_iff_eq, hOther] at h
          grind [braces]
        · rw [infer, inferFrom_of_define h]
      simp [hInfer]

/-- Conditional compilation has a closing side only. -/
theorem inferFrom_of_conditional {header : String}
    (h : leadingKeyword header ∈ ["#if", "#elif", "#else"]) :
    inferFrom header = { closing := some "#endif" } := by
  unfold inferFrom
  simp only [List.mem_cons, List.not_mem_nil, or_false] at h
  rcases h with h | h | h
  all_goals
    rw [h]
    rfl

/-- Branches of code have braces. -/
theorem inferFrom_of_branch {header : String} (h : leadingKeyword header ∈ ["if", "else"])
    {last : Char} (hLast : header.toList.getLast? = some last) (hSolid : isBlank last = false)
    (hAssign : last ≠ '=') : inferFrom header = braces := by
  have hNoAssign : (some last == some '=') = false := by simp [hAssign]
  unfold inferFrom
  rw [trimEnd_of_getLast? hLast hSolid, hLast, hNoAssign]
  simp only [List.mem_cons, List.not_mem_nil, or_false] at h
  rcases h with h | h
  all_goals
    rw [h]
    rfl

/-- The header of branch `index` of a chain for the preprocessor. -/
def conditionLine (index : Nat) (condition : String) : String :=
  (if index == 0 then "#if " else "#elif ") ++ condition

/-- A condition line starts with a keyword of conditionals, whatever the condition is. -/
theorem leadingKeyword_conditionLine (index : Nat) (condition : String) :
    leadingKeyword (conditionLine index condition) ∈ ["#if", "#elif", "#else"] := by
  have hIf : leadingKeyword ("#if " ++ condition) = "#if" :=
    leadingKeyword_of_directive ['i', 'f'] (' ' :: condition.toList) (by simp) (by decide)
      (by rintro _ ⟨⟩; decide)
  have hElif : leadingKeyword ("#elif " ++ condition) = "#elif" :=
    leadingKeyword_of_directive ['e', 'l', 'i', 'f'] (' ' :: condition.toList) (by simp)
      (by decide) (by rintro _ ⟨⟩; decide)
  unfold conditionLine
  split
  · rw [hIf]
    decide
  · rw [hElif]
    decide

namespace Scope

variable {header : String}

/-- A conditional is left by the line that was given for its end, or else by the usual one. -/
theorem side_of_conditional (closing : Option String)
    (h : leadingKeyword header ∈ ["#if", "#elif", "#else"]) :
    ({ header := some header, closing } : Scope).side =
      ⟨closing <|> some "#endif", false, false⟩ := by
  have hInfer : infer (some header) = { closing := some "#endif" } := inferFrom_of_conditional h
  simp only [side, hInfer, Option.getD_none]

theorem entering_of_conditional (closing : Option String)
    (h : leadingKeyword header ∈ ["#if", "#elif", "#else"]) (continued : Bool) (indent : Nat) :
    ({ header := some header, closing } : Scope).entering continued indent =
      Line.fragment continued indent header := by
  have hInfer : infer (some header) = { closing := some "#endif" } := inferFrom_of_conditional h
  simp [entering, side_of_conditional closing h, hInfer, Line.optional]

end Scope

theorem getLast?_parenthesized (front : String) :
    (front ++ ")").toList.getLast? = some ')' := by
  rw [String.toList_append]
  exact List.getLast?_concat

/-- The header of a conditional statement opens a block in plain braces, whatever the condition
is. -/
theorem inferFrom_if (condition : String) : inferFrom ("if (" ++ condition ++ ")") = braces := by
  have hKeyword : leadingKeyword ("if (" ++ condition ++ ")") = "if" :=
    leadingKeyword_of_word 'i' ['f'] (' ' :: '(' :: (condition.toList ++ [')'])) (by simp)
      (by decide) (by rintro _ ⟨⟩; decide)
  exact inferFrom_of_branch (by rw [hKeyword]; decide) (getLast?_parenthesized _) (by decide)
    (by decide)

/-- A block behind an else-if stands in plain braces, whatever the condition is. -/
theorem inferFrom_elseIf (condition : String) :
    inferFrom ("else if (" ++ condition ++ ")") = braces := by
  have hKeyword : leadingKeyword ("else if (" ++ condition ++ ")") = "else" :=
    leadingKeyword_of_word 'e' ['l', 's', 'e']
      (' ' :: 'i' :: 'f' :: ' ' :: '(' :: (condition.toList ++ [')'])) (by simp) (by decide)
      (by rintro _ ⟨⟩; decide)
  exact inferFrom_of_branch (by rw [hKeyword]; decide) (getLast?_parenthesized _) (by decide)
    (by decide)

namespace Scope

variable {header : String}

theorem side_of_braces (h : inferFrom header = braces) :
    (Scope.headed header).side = ⟨some "\x7d", false, false⟩ := by
  have hInfer : infer (some header) = braces := h
  simp only [Scope.headed, side, hInfer]
  rfl

theorem entering_of_braces (h : inferFrom header = braces) (continued : Bool) (indent : Nat) :
    (Scope.headed header).entering continued indent =
      Line.fragment continued indent header ++ Line.fragment continued indent "\x7b" := by
  have hInfer : infer (some header) = braces := h
  rw [entering, side_of_braces h]
  simp only [Scope.headed, hInfer, Bool.or_false]
  rfl

end Scope

end Metagen.Emission
