import Metagen.Proofs.Emission.Headers
import Metagen.Proofs.Emission.Lines
import Metagen.Proofs.Emission.Runs

/-! Continued lines. The lines of a definition are continued up to the end of the first other
definition that is inside of it: continuation is one mode of the emitter, and the end of any
definition ends it. -/

namespace Metagen.Emission

open Text Emitter

variable {Failure Result : Type}

/-- Every line of a text ends in a backslash. -/
def Continued (text : String) : Prop :=
  ∀ before behind, text.toList = before ++ '\n' :: behind → before.getLast? = some '\\'

/-- Lines that are continued, up to an empty one that is not. -/
def BrokenOff (ls : List Line) : Prop :=
  ∃ front indent behind, ls = front ++ ⟨false, indent, ""⟩ :: behind ∧ front ≠ [] ∧
    ∀ line ∈ front, line.continued = true

/-- A definition is entered somewhere in a layout. -/
def Layout.EntersDefinition (layout : Layout) : Prop :=
  ∃ scope inner, Layout.Enters scope inner layout ∧ scope.side.definesMacro = true

/-- The lines of a definition, from its header to its closing side. -/
def Scope.definitionLines (scope : Scope) (inner : Layout) (indent : Nat) : List Line :=
  scope.entering true indent ++ (inner.lines true (scope.side.level indent + 1) ++
    Line.optional (inner.ends true) (scope.side.level indent) scope.side.closing)

theorem notMem_spaces (n : Nat) : '\n' ∉ (spaces n).toList := by
  rw [spaces, String.toList_ofList]
  exact fun h => absurd (List.eq_of_mem_replicate h) (by decide)

theorem trimEnd_of_blank {text : String} (h : Blank text.toList) : trimEnd text = "" := by
  have hDropped := dropTrailing_append_of_blank h []
  rw [List.nil_append] at hDropped
  rw [trimEnd, hDropped]
  rfl

/-- An empty line that is not continued. -/
theorem render_empty (indent : Nat) : (⟨false, indent, ""⟩ : Line).render = "\n" := by
  have hBlank : Blank (spaces (indent * indentWidth) ++ "" ++ "").toList := by
    simp only [String.append_empty, spaces, String.toList_ofList]
    intro c hc
    rw [List.eq_of_mem_replicate hc]
    rfl
  change trimEnd (spaces (indent * indentWidth) ++ "" ++ "") ++ "\n" = "\n"
  rw [trimEnd_of_blank hBlank]
  rfl

/-- A line as it is written ends in the only line feed it has, behind a backslash if it is
continued. -/
theorem Line.exists_render (line : Line) (h : '\n' ∉ line.text.toList) :
    ∃ chars, line.render.toList = chars ++ ['\n'] ∧ '\n' ∉ chars ∧
      (line.continued = true → chars.getLast? = some '\\') := by
  refine ⟨(layOut line.continued line.indent line.text).toList, String.toList_append .., ?_, ?_⟩
  · have hMark : '\n' ∉ (if line.continued then " \\" else "").toList := by
      cases line.continued <;> decide
    rw [layOut, trimEnd, String.toList_ofList]
    refine fun hIn => ?_
    have hAll := (sublist_dropTrailing isBlank _).subset hIn
    rw [String.toList_append, String.toList_append, List.mem_append, List.mem_append] at hAll
    exact hAll.elim (fun hAll => hAll.elim (notMem_spaces _) h) hMark
  · intro hContinued
    have hEnd : (spaces (line.indent * indentWidth) ++ line.text ++ " \\").toList.getLast? =
        some '\\' := by
      rw [String.toList_append, List.getLast?_append]
      rfl
    rw [hContinued, layOut, if_pos rfl, trimEnd_of_getLast? hEnd (by decide), hEnd]

/-- Where the first of the characters that end lines is. -/
theorem append_cons_cases {chars rest before behind : List Char} {c : Char} (hNone : c ∉ chars)
    (h : chars ++ c :: rest = before ++ c :: behind) :
    before = chars ∨ ∃ more, before = chars ++ c :: more ∧ rest = more ++ c :: behind := by
  rcases List.append_eq_append_iff.1 h with ⟨more, hBefore, hRest⟩ | ⟨more, hChars, hRest⟩
  · cases more with
    | nil => exact .inl (by simpa using hBefore)
    | cons first more =>
        rw [List.cons_append, List.cons.injEq] at hRest
        obtain ⟨rfl, hRest⟩ := hRest
        exact .inr ⟨more, hBefore, hRest⟩
  · cases more with
    | nil => exact .inl (by simpa using hChars.symm)
    | cons first more =>
        rw [List.cons_append, List.cons.injEq] at hRest
        obtain ⟨rfl, -⟩ := hRest
        exact absurd (by simp [hChars]) hNone

/-- If every line is continued, and none holds a line feed, then every line of their text ends in a
backslash. -/
theorem continued_render {ls : List Line} (hSingle : ∀ line ∈ ls, '\n' ∉ line.text.toList)
    (h : ∀ line ∈ ls, line.continued = true) : Continued (render ls) := by
  induction ls with
  | nil => exact fun before behind hEq => by simp [render] at hEq
  | cons line rest ih =>
      intro before behind hEq
      obtain ⟨chars, hLine, hNone, hLast⟩ := line.exists_render (hSingle line (.head rest))
      rw [render, String.toList_append, hLine, List.append_assoc, List.singleton_append] at hEq
      rcases append_cons_cases hNone hEq with rfl | ⟨more, rfl, hRest⟩
      · exact hLast (h line (.head rest))
      · have hMore := ih (fun l hl => hSingle l (.tail line hl)) (fun l hl => h l (.tail line hl))
          more behind hRest
        rw [List.getLast?_append, List.getLast?_cons, hMore]
        rfl

/-- An empty line that is not continued has no backslash. -/
theorem not_continued_of_empty (front behind : List Line) (indent : Nat) :
    ¬ Continued (render (front ++ ⟨false, indent, ""⟩ :: behind)) := by
  intro h
  have hLast := h (render front).toList (render behind).toList (by
    rw [render_append, String.toList_append, render, render_empty, String.toList_append]
    rfl)
  rcases List.eq_nil_or_concat front with rfl | ⟨init, line, rfl⟩
  · cases hLast
  · have hEnd : (render (init ++ [line])).toList =
        (render init ++ layOut line.continued line.indent line.text).toList ++ ['\n'] := by
      simp [render_append, render, Line.render]
    rw [List.concat_eq_append, hEnd, List.getLast?_concat] at hLast
    exact absurd hLast (by decide)

namespace Layout

theorem not_entersDefinition_plain (texts : List String) : ¬ (plain texts).EntersDefinition := by
  rintro ⟨_, _, ⟨⟩, -⟩

/-- A definition is entered in two layouts exactly if it is entered in one of them. -/
theorem entersDefinition_both {first second : Layout} :
    (both first second).EntersDefinition ↔ first.EntersDefinition ∨ second.EntersDefinition := by
  constructor
  · rintro ⟨scope, inner, hEnters, hDefines⟩
    cases hEnters with
    | first h => exact .inl ⟨scope, inner, h, hDefines⟩
    | second h => exact .inr ⟨scope, inner, h, hDefines⟩
  · rintro (⟨scope, inner, h, hDefines⟩ | ⟨scope, inner, h, hDefines⟩)
    · exact ⟨scope, inner, .first h, hDefines⟩
    · exact ⟨scope, inner, .second h, hDefines⟩

/-- A definition is entered in a scope exactly if the scope is one or a definition is entered
inside. -/
theorem entersDefinition_scope {s : Scope} {layout : Layout} :
    (scope s layout).EntersDefinition ↔ s.side.definesMacro = true ∨ layout.EntersDefinition := by
  constructor
  · rintro ⟨scope, inner, hEnters, hDefines⟩
    cases hEnters with
    | here => exact .inl hDefines
    | scope h => exact .inr ⟨scope, inner, h, hDefines⟩
  · rintro (hDefines | ⟨scope, inner, h, hDefines⟩)
    · exact ⟨s, layout, .here, hDefines⟩
    · exact ⟨scope, inner, .scope h, hDefines⟩

/-- A section enters definitions only where what is inside does. -/
theorem entersDefinition_titled {text : String} {layout : Layout} :
    (titled text layout).EntersDefinition ↔ layout.EntersDefinition := by
  constructor
  · rintro ⟨scope, inner, hEnters, hDefines⟩
    cases hEnters with
    | titled h => exact ⟨scope, inner, h, hDefines⟩
  · rintro ⟨scope, inner, h, hDefines⟩
    exact ⟨scope, inner, .titled h, hDefines⟩

end Layout

/-- Continued lines in front of lines that are broken off leave them broken off. -/
theorem BrokenOff.behind {ls : List Line} (h : BrokenOff ls) {before : List Line}
    (hBefore : ∀ line ∈ before, line.continued = true) : BrokenOff (before ++ ls) := by
  obtain ⟨front, indent, behind, rfl, hNe, hFront⟩ := h
  refine ⟨before ++ front, indent, behind, (List.append_assoc ..).symm,
    List.append_ne_nil_of_right_ne_nil _ hNe, fun line hLine => ?_⟩
  exact (List.mem_append.1 hLine).elim (hBefore line) (hFront line)

/-- Whatever is written behind them, lines that are broken off stay so. -/
theorem BrokenOff.before {ls : List Line} (h : BrokenOff ls) (behind : List Line) :
    BrokenOff (ls ++ behind) := by
  obtain ⟨front, indent, rest, rfl, hNe, hFront⟩ := h
  exact ⟨front, indent, rest ++ behind, by simp, hNe, hFront⟩

theorem BrokenOff.head {ls : List Line} (h : BrokenOff ls) :
    ∀ line ∈ ls.head?, line.continued = true := by
  obtain ⟨front, indent, behind, rfl, hNe, hFront⟩ := h
  obtain ⟨first, rest, rfl⟩ := List.exists_cons_of_ne_nil hNe
  rintro _ ⟨⟩
  exact hFront first (.head rest)

/-- The header of a definition is a line at least. -/
theorem Scope.entering_ne_nil {scope : Scope} (h : scope.side.definesMacro = true)
    (continued : Bool) (indent : Nat) : scope.entering continued indent ≠ [] := by
  obtain ⟨header, hHeader, hKeyword⟩ := definesMacro_side_iff.1 h
  have hSolid : ∃ c ∈ header.toList, isBlank c = false := by
    by_contra hNone
    have hBlank : Blank header.toList := fun c hc => by
      by_contra hSolid
      exact hNone ⟨c, hc, Bool.eq_false_iff.2 hSolid⟩
    rw [leadingKeyword_of_blank hBlank] at hKeyword
    exact absurd hKeyword (by decide)
  obtain ⟨c, hMem, hSolid⟩ := hSolid
  unfold Scope.entering
  rw [hHeader]
  refine List.append_ne_nil_of_left_ne_nil ?_ _
  exact mt List.map_eq_nil_iff.1 (fragmentLines_ne_nil hMem hSolid)

/-- The text of a section is continued if the first line in it is. -/
theorem exists_continued_title (text : String) (indent : Nat) {ls : List Line}
    (h : ∀ line ∈ ls.head?, line.continued = true) : ∃ title,
      inSection text indent ls = title ++ ls ∧ ∀ line ∈ title, line.continued = true := by
  cases ls with
  | nil => exact ⟨[], rfl, nofun⟩
  | cons first rest =>
      refine ⟨Line.fragment first.continued indent text, rfl, fun line hLine => ?_⟩
      have hTitle : line ∈ Line.optional first.continued indent (some text) := hLine
      exact (Line.continued_of_mem_optional hTitle).trans (h first rfl)

/-- Lines written by a layout are continued if those before it are, and so are those behind it. -/
structure Layout.ContinuesLines (layout : Layout) (indent : Nat) : Prop where
  lines : ∀ line ∈ layout.lines true indent, line.continued = true
  ends : layout.ends true = true

/-- The lines of a scope from its header to its closing side are continued if those in it are. -/
theorem Scope.continued_definitionLines (scope : Scope) {inner : Layout} {indent : Nat}
    (h : inner.ContinuesLines (scope.side.level indent + 1)) :
    ∀ line ∈ scope.definitionLines inner indent, line.continued = true := by
  refine List.forall_mem_append.2 ⟨fun line hLine => ?_, List.forall_mem_append.2 ⟨h.lines, ?_⟩⟩
  · exact (scope.continued_of_mem_entering hLine).trans (Bool.true_or _)
  · rw [h.ends]
    exact fun _ => Line.continued_of_mem_optional

/-- A definition is broken off if what is inside of it is, since all its lines up to there are
continued. -/
theorem Scope.brokenOff_definitionLines (scope : Scope) {inner : Layout} {indent : Nat}
    (h : BrokenOff (inner.lines true (scope.side.level indent + 1))) :
    BrokenOff (scope.definitionLines inner indent) :=
  (h.before _).behind fun _ hLine =>
    (scope.continued_of_mem_entering hLine).trans (Bool.true_or _)

/-- A definition ends in an empty line behind its closing side. -/
theorem Layout.lines_scope (scope : Scope) (inner : Layout) (indent : Nat) :
    (Layout.scope scope inner).lines true indent = scope.definitionLines inner indent ++
      if scope.side.definesMacro then [⟨false, indent, ""⟩] else [] := by
  rw [Layout.lines, Bool.true_or, Scope.definitionLines, ExitSide.leaving]
  simp only [List.append_assoc]

/-- Behind lines that are continued, a layout writes continued lines, or lines that are broken off
if a definition is inside of it. The induction is on the layout; a definition breaks the lines off
at its end at the latest. -/
theorem Layout.continuesLines_or_brokenOff (layout : Layout) (indent : Nat) :
    ¬ layout.EntersDefinition ∧ layout.ContinuesLines indent ∨
      layout.EntersDefinition ∧ BrokenOff (layout.lines true indent) := by
  induction layout generalizing indent with
  | plain texts =>
      refine .inl ⟨not_entersDefinition_plain texts, fun line hLine => ?_, rfl⟩
      obtain ⟨text, -, rfl⟩ := List.mem_map.1 hLine
      rfl
  | both first second ihFirst ihSecond =>
      rw [entersDefinition_both, Layout.lines]
      rcases ihFirst indent with ⟨hNone, hFirst⟩ | ⟨hDefines, hBroken⟩
      · rcases ihSecond indent with ⟨hNone', hSecond⟩ | ⟨hDefines, hBroken⟩
        · refine .inl ⟨by simp [hNone, hNone'], ?_, ?_⟩
          · rw [Layout.lines, hFirst.ends]
            exact List.forall_mem_append.2 ⟨hFirst.lines, hSecond.lines⟩
          · rw [Layout.ends, hFirst.ends, hSecond.ends]
        · rw [hFirst.ends]
          exact .inr ⟨.inr hDefines, hBroken.behind hFirst.lines⟩
      · exact .inr ⟨.inl hDefines, hBroken.before _⟩
  | scope s inner ih =>
      rw [entersDefinition_scope, lines_scope]
      rcases ih (s.side.level indent + 1) with ⟨hNone, hInner⟩ | ⟨hDefines, hBroken⟩
      · have hLines := s.continued_definitionLines hInner
        cases hScope : s.side.definesMacro with
        | true =>
            have hNe : s.definitionLines inner indent ≠ [] :=
              List.append_ne_nil_of_left_ne_nil (Scope.entering_ne_nil hScope true indent) _
            exact .inr ⟨.inl rfl, _, indent, [], rfl, hNe, hLines⟩
        | false =>
            refine .inl ⟨by simp [hNone], ?_, ?_⟩
            · rw [lines_scope, hScope, if_neg Bool.false_ne_true, List.append_nil]
              exact hLines
            · rw [Layout.ends, Bool.true_or, hInner.ends, hScope]
              rfl
      · exact .inr ⟨.inr hDefines, (s.brokenOff_definitionLines hBroken).before _⟩
  | titled text inner ih =>
      rw [entersDefinition_titled, Layout.lines]
      rcases ih indent with ⟨hNone, hInner⟩ | ⟨hDefines, hBroken⟩
      · obtain ⟨title, hTitle, hContinued⟩ := exists_continued_title text indent
          fun line hHead => hInner.lines line (List.mem_of_mem_head? hHead)
        refine .inl ⟨hNone, ?_, hInner.ends⟩
        rw [Layout.lines, hTitle]
        exact List.forall_mem_append.2 ⟨hContinued, hInner.lines⟩
      · obtain ⟨title, hTitle, hContinued⟩ := exists_continued_title text indent hBroken.head
        rw [hTitle]
        exact .inr ⟨hDefines, hBroken.behind hContinued⟩

/-- A definition writes its lines and then a single empty one, which is not continued. Its lines all
end in a backslash just when no other definition is entered inside of it; otherwise they do up to
the empty line behind the first one that ends there. -/
theorem output_definition (wrap : EmissionError → Failure) (p : Program Failure Result)
    (e : Emitter) {scope : Scope} {header : String} (hHeader : scope.header = some header)
    (hDefine : leadingKeyword header = "#define") (hSections : ∀ s ∈ e.sections, s.flushed = true) :
    (endState ((Program.inScope scope p).run wrap e)).output =
        e.output ++ (render (scope.definitionLines (p.layout wrap e) e.indent) ++ "\n") ∧
      (endState ((Program.inScope scope p).run wrap e)).inMacro = false ∧
      (Continued (render (scope.definitionLines (p.layout wrap e) e.indent)) ↔
        ¬ (p.layout wrap e).EntersDefinition) ∧
      ((p.layout wrap e).EntersDefinition →
        BrokenOff (scope.definitionLines (p.layout wrap e) e.indent)) := by
  have hDefines := definesMacro_side_iff.2 ⟨header, hHeader, hDefine⟩
  have hLines : (Program.inScope scope p).lines wrap e =
      scope.definitionLines (p.layout wrap e) e.indent ++ [⟨false, e.indent, ""⟩] := by
    have hWithin := Layout.lines_scope scope (p.layout wrap e) e.indent
    rw [hDefines, if_pos rfl] at hWithin
    rw [← hWithin]
    change (Layout.scope scope (p.layout wrap e)).lines e.inMacro e.indent = _
    unfold Layout.lines Scope.entering
    rw [hDefines, Bool.or_true, Bool.or_true]
  have hSingle : ∀ line ∈ scope.definitionLines (p.layout wrap e) e.indent,
      '\n' ∉ line.text.toList := fun line hLine =>
    (Layout.Single.scope (s := scope) (p.single_showing wrap e.ledger)).notMem_of_mem_lines (by
      rw [Layout.lines_scope]
      exact List.mem_append_left _ hLine)
  have hBroken (hInside : (p.layout wrap e).EntersDefinition) :
      BrokenOff (scope.definitionLines (p.layout wrap e) e.indent) :=
    scope.brokenOff_definitionLines (((p.layout wrap e).continuesLines_or_brokenOff _).resolve_left
      fun h => h.1 hInside).2
  refine ⟨?_, ?_, ⟨fun hContinued hInside => ?_, fun hNone => ?_⟩, hBroken⟩
  · rw [Program.output_run, hLines, Emitter.output_adding_of_flushed hSections, render_append]
    rw [render, render_empty]
    rfl
  · rw [Program.showsEverywhere_run, endState_behind]
    change (Layout.scope scope (p.layout wrap e)).ends e.inMacro = false
    rw [Layout.ends, hDefines, Bool.not_true, Bool.and_false]
  · obtain ⟨front, indent, behind, hFront, -, -⟩ := hBroken hInside
    rw [hFront] at hContinued
    exact not_continued_of_empty front behind indent hContinued
  · refine continued_render hSingle (scope.continued_definitionLines ?_)
    exact (((p.layout wrap e).continuesLines_or_brokenOff _).resolve_right fun h => hNone h.1).2

/-- A definition of two lines and a line behind it. -/
def defineThenLine : Program EmissionError Unit := twoLines.andThen fun _ => .line "x"

/-- The end of a definition inside of another one ends the continuation of both. -/
theorem definition_broken_off :
    leadingKeyword "#define A" = "#define" ∧
      (endState ((Program.inScope (.headed "#define A") defineThenLine).run id {})).output =
        "#define A \\\n    #define M \\\n        a \\\n        b \\\n\n    x\n\n" ∧
      (endState ((Program.inScope (.headed "#define A") (.line "x" :
        Program EmissionError Unit)).run id {})).output = "#define A \\\n    x \\\n\n" := by
  decide +kernel

/-- A line in a definition. -/
theorem output_definition_line :
    (Scope.headed "#define A").header = some "#define A" ∧
      leadingKeyword "#define A" = "#define" ∧
      (∀ s ∈ ({} : Emitter).sections, s.flushed = true) ∧
      Continued (render ((Scope.headed "#define A").definitionLines
        ((Program.line "x" : Program EmissionError Unit).layout id {}) 0)) :=
  have hKeyword : leadingKeyword "#define A" = "#define" := by decide +kernel
  have hNone : ¬ ((Program.line "x" : Program EmissionError Unit).layout id {}).EntersDefinition :=
    Layout.not_entersDefinition_plain _
  ⟨rfl, hKeyword, nofun,
    (output_definition id (.line "x" : Program EmissionError Unit) {} rfl hKeyword nofun).2.2.1.2
      hNone⟩

end Metagen.Emission
