import Metagen.Proofs.Emission.Program

/-! What a run of a program does to the emitter. It only appends lines, closes all scopes that it
enters, and leaves levels, sections and continuation as they were, also when it fails. A section
around a program writes its text before the first line, as that line is written. -/

namespace Metagen.Emission

open Emitter

variable {Failure Result : Type}

/-- Where an action has come to is where its layout leads from the emitter, with the ledger that the
action leaves. -/
theorem endState_behind (shown : Shown Failure Result) (e : Emitter) :
    endState (shown.behind e) = (e.after shown.layout).withLedger shown.ledger := by
  unfold Shown.behind
  cases shown.result <;> rfl

/-- The sections that wait come before the lines that are added. -/
theorem Emitter.exists_output_adding (e : Emitter) (ls : List Line) :
    ∃ front, (e.adding ls).output = e.output ++ render (front ++ ls) := by
  cases ls with
  | nil => exact ⟨[], by simp [render]⟩
  | cons first rest => exact ⟨e.waiting first.continued, rfl⟩

/-- Where all sections have written their texts, adding lines adds these and nothing else. -/
theorem Emitter.output_adding_of_flushed {e : Emitter} (h : ∀ s ∈ e.sections, s.flushed = true)
    (ls : List Line) : (e.adding ls).output = e.output ++ render ls := by
  cases ls with
  | nil => simp [render]
  | cons first rest =>
      have hNone : e.waiting first.continued = [] := by
        rw [waiting, List.filter_eq_nil_iff.2 (by simpa using h), List.flatMap_nil]
      rw [adding, hNone, List.nil_append]

namespace Program

variable (wrap : EmissionError → Failure)

/-- The layout that a program writes from an emitter on. -/
def layout (p : Program Failure Result) (e : Emitter) : Layout := (p.showing wrap e.ledger).layout

/-- The lines that a program writes from an emitter on, those of sections that wait apart. -/
def lines (p : Program Failure Result) (e : Emitter) : List Line :=
  (p.layout wrap e).lines e.inMacro e.indent

/-- What a program writes is what its lines write, whether it comes to its end or fails on the
way. -/
theorem output_run (p : Program Failure Result) (e : Emitter) :
    (endState (p.run wrap e)).output = (e.adding (p.lines wrap e)).output := by
  rw [p.showsEverywhere_run wrap e, endState_behind]
  rfl

end Program

/-- What a run has left as it was, and what it has appended. -/
structure RestoredLayout (before after : Emitter) (layout : Layout) : Prop where
  indent : after.indent = before.indent
  sections : after.sections.length = before.sections.length
  inMacro : before.inMacro = false → after.inMacro = false
  output : ∃ text, after.output = before.output ++ text
  /-- Every scope that was entered has its closing side behind what was written in it. -/
  closed : ∀ scope inner, Layout.Enters scope inner layout → ∃ front behind continued indent,
    after.output = before.output ++ render (front ++ (scope.entering continued indent ++
      (inner.lines (continued || scope.side.definesMacro) (scope.side.level indent + 1) ++
        (scope.side.leaving (inner.ends (continued || scope.side.definesMacro)) indent ++ behind))))

/-- A layout that was written brings back the level and the number of sections, and leaves macro
mode off where it was off. -/
theorem restoredLayout_after (e : Emitter) (layout : Layout) (l : Ledger) :
    RestoredLayout e ((e.after layout).withLedger l) layout where
  indent := rfl
  sections := e.length_sections_adding _
  inMacro hMode := by
    change layout.ends e.inMacro = false
    rw [hMode]
    exact layout.ends_of_not_continued
  output := by
    obtain ⟨front, hOutput⟩ := e.exists_output_adding (layout.lines e.inMacro e.indent)
    exact ⟨_, hOutput⟩
  closed scope inner hEnters := by
    obtain ⟨waiting, hOutput⟩ := e.exists_output_adding (layout.lines e.inMacro e.indent)
    obtain ⟨front, behind, continued, indent, hLines⟩ := hEnters.lines e.inMacro e.indent
    refine ⟨waiting ++ front, behind, continued, indent, hOutput.trans ?_⟩
    rw [hLines, Layout.lines]
    simp only [List.append_assoc]

/-- Whatever a program does and wherever it fails, the level, the number of open sections and the
end of continuation are restored, text is only appended, and every scope that was entered is
closed. -/
theorem restored_run (wrap : EmissionError → Failure) (p : Program Failure Result) (e : Emitter) :
    RestoredLayout e (endState (p.run wrap e)) (p.layout wrap e) := by
  rw [p.showsEverywhere_run wrap e, endState_behind]
  exact restoredLayout_after e _ _

/-- An optional line goes on exactly as it is told to. -/
theorem Line.continued_of_mem_optional {continued : Bool} {indent : Nat} {text : Option String}
    {line : Line} (h : line ∈ Line.optional continued indent text) :
    line.continued = continued := by
  cases text with
  | none => cases h
  | some text =>
      obtain ⟨part, -, rfl⟩ := List.mem_map.1 h
      rfl

theorem Scope.continued_of_mem_entering (scope : Scope) {continued : Bool} {indent : Nat}
    {line : Line} (h : line ∈ scope.entering continued indent) :
    line.continued = (continued || scope.side.definesMacro) := by
  rcases List.mem_append.1 h with hHeader | hOpening
  · exact Line.continued_of_mem_optional hHeader
  · exact Line.continued_of_mem_optional hOpening

theorem ExitSide.continued_of_mem_leaving (side : ExitSide) {indent : Nat} {line : Line}
    (h : line ∈ side.leaving false indent) : line.continued = false := by
  rcases List.mem_append.1 h with hClosing | hBlank
  · exact Line.continued_of_mem_optional hClosing
  · split at hBlank
    · rw [List.mem_singleton.1 hBlank]
    · cases hBlank

/-- The first line of a layout is continued only if lines are before it, or if a scope of the layout
is a definition. -/
theorem Layout.exists_definition {layout : Layout} {indent : Nat} {first : Line}
    (hFirst : (layout.lines false indent).head? = some first) (h : first.continued = true) :
    ∃ scope inner, Layout.Enters scope inner layout ∧ scope.side.definesMacro = true := by
  induction layout generalizing indent first with
  | plain texts =>
      obtain ⟨text, -, rfl⟩ := List.mem_map.1 (List.mem_of_mem_head? hFirst)
      cases h
  | both layout other ih ihOther =>
      rw [Layout.lines, List.head?_append, Layout.ends_of_not_continued] at hFirst
      cases hLines : (layout.lines false indent).head? with
      | none =>
          rw [hLines] at hFirst
          obtain ⟨scope, inner, hEnters, hDefines⟩ := ihOther hFirst h
          exact ⟨scope, inner, .second hEnters, hDefines⟩
      | some line =>
          rw [hLines] at hFirst
          cases hFirst
          obtain ⟨scope, inner, hEnters, hDefines⟩ := ih hLines h
          exact ⟨scope, inner, .first hEnters, hDefines⟩
  | scope s inner ih =>
      cases hDefines : s.side.definesMacro with
      | true => exact ⟨s, inner, .here, hDefines⟩
      | false =>
          rw [Layout.lines, hDefines, Bool.false_or, Layout.ends_of_not_continued,
            List.head?_append, List.head?_append, Option.or_eq_some_iff,
            Option.or_eq_some_iff] at hFirst
          rcases hFirst with hEntering | ⟨-, hInner | ⟨-, hLeaving⟩⟩
          · rw [s.continued_of_mem_entering (List.mem_of_mem_head? hEntering), hDefines] at h
            cases h
          · obtain ⟨scope, within, hEnters, hScope⟩ := ih hInner h
            exact ⟨scope, within, .scope hEnters, hScope⟩
          · rw [s.side.continued_of_mem_leaving (List.mem_of_mem_head? hLeaving)] at h
            cases h
  | titled text inner ih =>
      cases hLines : inner.lines false indent with
      | nil =>
          rw [Layout.lines, hLines] at hFirst
          cases hFirst
      | cons line rest =>
          obtain ⟨head, hHead, hSame⟩ := inSection_head text indent line rest
          rw [Layout.lines, hLines, hHead] at hFirst
          obtain rfl := Option.some.inj hFirst
          obtain ⟨scope, within, hEnters, hScope⟩ := ih (by rw [hLines]; rfl) (hSame ▸ h)
          exact ⟨scope, within, .titled hEnters, hScope⟩

/-- If the first line inside of a section is as continued as the emitter, then the text of the
section is written like a fragment. -/
theorem Emitter.after_titled (e : Emitter) (text : String) (layout : Layout) {first : Line}
    {rest : List Line} (hLines : layout.lines e.inMacro e.indent = first :: rest)
    (hFirst : first.continued = e.inMacro) :
    e.after (.titled text layout) = e.after (.both (.fragment text) layout) := by
  have hSame : (Layout.titled text layout).lines e.inMacro e.indent =
      (Layout.both (.fragment text) layout).lines e.inMacro e.indent := by
    change inSection text e.indent (layout.lines e.inMacro e.indent) =
      Line.fragment e.inMacro e.indent text ++ layout.lines e.inMacro e.indent
    rw [hLines, inSection, hFirst]
  unfold Emitter.after
  rw [hSame]
  rfl

/-- A section around a program writes nothing if the program writes nothing. Otherwise its text and
those of the sections that wait come before the first line of the program, and are continued just
when that line is. So it is the same to write the text first, unless the program starts with a
definition of several lines. -/
theorem run_inSection (wrap : EmissionError → Failure) (text : String)
    (p : Program Failure Result) (e : Emitter) :
    (p.lines wrap e = [] →
      (endState ((Program.inSection text p).run wrap e)).output = e.output) ∧
    ∀ first rest, p.lines wrap e = first :: rest →
      (endState ((Program.inSection text p).run wrap e)).output = e.output ++
        render (e.waiting first.continued ++
          (Line.fragment first.continued e.indent text ++ p.lines wrap e)) ∧
      (first.continued = e.inMacro → (Program.inSection text p).run wrap e =
        ((Program.line text).andThen fun _ => p).run wrap e) ∧
      (e.inMacro = false → first.continued = true → ∃ scope inner,
        Layout.Enters scope inner (p.layout wrap e) ∧ scope.side.definesMacro = true) := by
  have hOutput : (endState ((Program.inSection text p).run wrap e)).output =
      (e.adding (inSection text e.indent (p.lines wrap e))).output :=
    (Program.inSection text p).output_run wrap e
  refine ⟨fun hNone => ?_, fun first rest hLines => ⟨?_, fun hFirst => ?_, fun hMode hFirst => ?_⟩⟩
  · rw [hOutput, hNone]
    rfl
  · obtain ⟨head, hHead, hContinued⟩ := inSection_head text e.indent first rest
    rw [hOutput, hLines, adding_eq e hHead, hContinued]
    rfl
  · have hSame := e.after_titled text (p.layout wrap e) hLines hFirst
    rw [Program.showsEverywhere_run, Program.showsEverywhere_run]
    change Shown.behind ⟨.titled text (p.layout wrap e), _, _⟩ e =
      Shown.behind ⟨.both (.fragment text) (p.layout wrap e), _, _⟩ e
    unfold Shown.behind
    dsimp only
    rw [hSame]
    rfl
  · rw [Program.lines, hMode] at hLines
    exact Layout.exists_definition (by rw [hLines]; rfl) hFirst

/-- A definition of two lines. -/
def twoLines : Program EmissionError Unit := .define { name := "M", expansion := "a\nb" }

/-- A comment in front of a definition is continued by the section around it, so that the header of
the definition is part of the comment. -/
theorem section_before_definition :
    ({} : Emitter).inMacro = false ∧
      (endState ((Program.inSection "// m" twoLines).run id {})).output =
        "// m \\\n#define M \\\n    a \\\n    b \\\n\n" ∧
      (endState (((Program.line "// m").andThen fun _ => twoLines).run id {})).output =
        "// m\n#define M \\\n    a \\\n    b \\\n\n" := by
  decide +kernel

/-- A line in front of a definition in a section: the section has its text in front of both. -/
theorem run_inSection_line :
    (Program.inSection "// m" ((Program.line "x").andThen fun _ => twoLines)).run id {} =
      ((Program.line "// m").andThen fun _ => (Program.line "x").andThen fun _ => twoLines).run id
        {} := by
  have hLines : ((Program.line "x").andThen fun _ => twoLines).lines id {} =
      ⟨false, 0, "x"⟩ :: (((Program.line "x").andThen fun _ => twoLines).lines id {}).tail := by
    decide +kernel
  exact ((run_inSection id "// m" ((Program.line "x").andThen fun _ => twoLines) {}).2 _ _
    hLines).2.1 rfl

end Metagen.Emission
