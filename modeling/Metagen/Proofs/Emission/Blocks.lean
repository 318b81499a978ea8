import Metagen.Proofs.Emission.ChainText

/-! Blocks of lines. A text of one line without blanks at its ends is written as it is, at the level
where it belongs; so are the header, the delimiters and the lines of a block. -/

namespace Metagen.Emission

open Text Emitter

/-- A line of a file: a text at a level. -/
def textLine (indent : Nat) (text : String) : String :=
  spaces (indent * indentWidth) ++ text ++ "\n"

/-- The text is one line that starts with a character that is not blank. -/
structure OpensLine (text : String) : Prop where
  first : ∃ c ∈ text.toList.head?, isBlank c = false
  single : '\n' ∉ text.toList

/-- The text is one line with no blank at either end. -/
structure Solid (text : String) : Prop extends OpensLine text where
  last : ∃ c ∈ text.toList.getLast?, isBlank c = false

variable {text behind : String}

/-- A line that starts with a solid character still does with more text behind it, as long as that
holds no line feed. -/
theorem OpensLine.append (h : OpensLine text) (behind : String) (hBehind : '\n' ∉ behind.toList) :
    OpensLine (text ++ behind) where
  first := by
    obtain ⟨c, hFirst, hSolid⟩ := h.first
    have hHead : text.toList.head? = some c := hFirst
    exact ⟨c, by simp [List.head?_append, hHead], hSolid⟩
  single := by simp [h.single, hBehind]

theorem OpensLine.closed (h : OpensLine text) (hBehind : '\n' ∉ behind.toList) {c : Char}
    (hLast : behind.toList.getLast? = some c) (hSolid : isBlank c = false) :
    Solid (text ++ behind) where
  toOpensLine := h.append behind hBehind
  last := ⟨c, by simp [List.getLast?_append, hLast], hSolid⟩

/-- The blanks at the end of a text are dropped, and those in front of it are not. -/
theorem OpensLine.plainLine (h : OpensLine text) (indent : Nat) :
    plainLine indent text = textLine indent (trimEnd text) := by
  obtain ⟨c, hFirst, hSolid⟩ := h.first
  obtain ⟨cs, hText⟩ := List.head?_eq_some_iff.1 hFirst
  have hKept (front : List Char) :
      dropTrailing isBlank (front ++ c :: cs) = front ++ c :: dropTrailing isBlank cs := by
    have hEnd : (front ++ [c]).getLast? = some c := List.getLast?_concat ..
    simpa using dropTrailing_append hEnd hSolid cs
  have hAlone := hKept []
  rw [List.nil_append, List.nil_append] at hAlone
  have hSame : trimEnd (spaces (indent * indentWidth) ++ text) =
      spaces (indent * indentWidth) ++ trimEnd text := by
    rw [trimEnd, trimEnd, String.toList_append, hText, hKept, hAlone, String.ofList_append,
      String.ofList_toList]
  rw [Emission.plainLine, hSame, textLine]

/-- A line that starts with a solid character is written as one line, indented and without blanks at
its end. -/
theorem OpensLine.render (h : OpensLine text) (indent : Nat) :
    render (Line.fragment false indent text) = textLine indent (trimEnd text) := by
  obtain ⟨c, hFirst, hSolid⟩ := h.first
  rw [render_fragment hFirst hSolid h.single, h.plainLine]

theorem Solid.trimEnd (h : Solid text) : trimEnd text = text := by
  obtain ⟨c, hLast, hSolid⟩ := h.last
  exact trimEnd_of_getLast? hLast hSolid

theorem Solid.render (h : Solid text) (indent : Nat) :
    render (Line.fragment false indent text) = textLine indent text := by
  rw [h.toOpensLine.render, h.trimEnd]

theorem Solid.render_optional {text : Option String} (h : ∀ t ∈ text, Solid t) (indent : Nat) :
    Emission.render ((Layout.optional text).lines false indent) =
      text.elim "" (textLine indent) := by
  cases text with
  | none => rfl
  | some t => exact (h t rfl).render indent

/-- Solid texts are written one by one. -/
theorem render_solid {texts : List String} (h : ∀ t ∈ texts, Solid t) (indent : Nat) :
    render ((Layout.plain (texts.flatMap fragmentLines)).lines false indent) =
      String.join (texts.map (textLine indent)) := by
  induction texts with
  | nil => rfl
  | cons t rest ih =>
      have hRest := ih fun t' ht' => h t' (.tail t ht')
      have hFirst := (h t (.head rest)).render indent
      rw [Layout.lines, List.flatMap_cons, List.map_append, render_append]
      rw [Layout.lines] at hRest
      rw [hRest, List.map_cons, String.join_cons]
      exact congrArg (· ++ _) hFirst

def declarationBraces (indented : Bool) : Delimiters :=
  { opening := some "\x7b", closing := some "\x7d;", indented }

/-- The lines of a declaration. -/
theorem lines_declaration {header : String} {indented : Bool}
    (hInfer : inferFrom header = declarationBraces indented) (inner : Layout) {indent level : Nat}
    (hLevel : level = if indented then indent + 1 else indent) :
    (Layout.scope (.headed header) inner).lines false indent =
      Line.fragment false indent header ++ (Line.fragment false level "\x7b" ++
        (inner.lines false (level + 1) ++ Line.fragment false level "\x7d;")) := by
  have hInfer' : infer (some header) = declarationBraces indented := hInfer
  have hSide : (Scope.headed header).side = ⟨some "\x7d;", indented, false⟩ := by
    simp only [Scope.side, Scope.headed, hInfer']
    rfl
  have hEntering : (Scope.headed header).entering false indent =
      Line.fragment false indent header ++ Line.fragment false level "\x7b" := by
    rw [Scope.entering, hSide, ExitSide.level, hLevel]
    simp only [Scope.headed, hInfer']
    rfl
  have hLeaving : ExitSide.leaving ⟨some "\x7d;", indented, false⟩ false indent =
      Line.fragment false level "\x7d;" := by
    rw [ExitSide.leaving, ExitSide.level, hLevel]
    simp [Line.optional]
  rw [Layout.lines, hEntering, hSide, ExitSide.level, ← hLevel, Bool.or_false,
    Layout.ends_of_not_continued, hLeaving, List.append_assoc]

/-- A declaration is written as its header, with its lines in braces behind it. -/
theorem render_declaration {header : String} {indented : Bool}
    (hInfer : inferFrom header = declarationBraces indented) (hHeader : OpensLine header)
    {texts : List String} (hTexts : ∀ t ∈ texts, Solid t) (indent level : Nat)
    (hLevel : level = if indented then indent + 1 else indent) :
    render ((Layout.scope (.headed header) (.plain (texts.flatMap fragmentLines))).lines
        false indent) =
      textLine indent (trimEnd header) ++ (textLine level "\x7b" ++
        (String.join (texts.map (textLine (level + 1))) ++ textLine level "\x7d;")) := by
  have hOpening : Solid "\x7b" := ⟨⟨⟨_, rfl, by decide⟩, by decide⟩, ⟨_, rfl, by decide⟩⟩
  have hClosing : Solid "\x7d;" := ⟨⟨⟨_, rfl, by decide⟩, by decide⟩, ⟨_, rfl, by decide⟩⟩
  rw [lines_declaration hInfer _ hLevel, render_append, render_append, render_append,
    hHeader.render, hOpening.render, render_solid hTexts, hClosing.render]

/-- An action that shows a layout and leaves the ledger as it is appends the lines of the layout. -/
theorem ShowsEverywhere.appended {action : Emit Unit} {showing : Showing EmissionError Unit}
    (h : ShowsEverywhere action showing) {e : Emitter} (hCalm : e.Calm) {layout : Layout}
    (hShown : showing e.ledger = ⟨layout, .ok (), e.ledger⟩) :
    ∃ e', action e = .ok () e' ∧ e.Appended e' (render (layout.lines false e.indent)) := by
  obtain ⟨hCalm', hOutput⟩ := hCalm.place (layout.lines false e.indent) e.indent
  have hAfter : e.after layout = e.place (layout.lines false e.indent) false e.indent := by
    rw [Emitter.after, hCalm.inMacro, Layout.ends_of_not_continued]
  refine ⟨e.after layout, ?_, ?_⟩
  · rw [h, hShown, Shown.behind, after_withLedger_ledger]
  · rw [hAfter]
    exact ⟨hCalm', rfl, hOutput⟩

end Metagen.Emission
