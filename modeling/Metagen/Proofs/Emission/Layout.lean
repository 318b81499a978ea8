import Metagen.Emission.Emitter

/-! What an emitter writes, as a tree of scopes and sections. The tree tells all lines with their
levels, those of scopes that are entered and left, and those of section texts that wait for a first
line. Whether lines are continued is threaded through it. -/

namespace Metagen.Emission

open Emitter

/-- A line of output: whether it is continued, its level, and its text. -/
structure Line where
  continued : Bool
  indent : Nat
  text : String
  deriving DecidableEq, Repr

def Line.render (line : Line) : String := layOut line.continued line.indent line.text ++ "\n"

/-- The lines of a fragment at a level. -/
def Line.fragment (continued : Bool) (indent : Nat) (text : String) : List Line :=
  (fragmentLines text).map (⟨continued, indent, ·⟩)

/-- The lines of a fragment, if there is one. -/
def Line.optional (continued : Bool) (indent : Nat) : Option String → List Line
  | some text => Line.fragment continued indent text
  | none => []

/-- Lines as they are written one behind the other. -/
def render : List Line → String
  | [] => ""
  | line :: rest => line.render ++ render rest

theorem render_append (first second : List Line) :
    render (first ++ second) = render first ++ render second := by
  induction first with
  | nil => simp [render]
  | cons line rest ih => rw [List.cons_append, render, render, ih, String.append_assoc]

namespace Emitter

/-- The lines of all sections that wait, if they are written now. -/
def waiting (e : Emitter) (continued : Bool) : List Line :=
  (e.sections.filter fun s => !s.flushed).flatMap fun s => Line.fragment continued s.indent s.text

/-- The emitter behind some lines. The first one brings along the sections that wait. -/
def adding (e : Emitter) : List Line → Emitter
  | [] => e
  | first :: rest => { e with
      output := e.output ++ render (e.waiting first.continued ++ first :: rest)
      sections := e.sections.map ({ · with flushed := true }) }

@[simp] theorem adding_nil (e : Emitter) : e.adding [] = e := rfl

@[simp] theorem indent_adding (e : Emitter) (ls : List Line) : (e.adding ls).indent = e.indent := by
  cases ls <;> rfl

@[simp] theorem inMacro_adding (e : Emitter) (ls : List Line) :
    (e.adding ls).inMacro = e.inMacro := by
  cases ls <;> rfl

@[simp] theorem length_sections_adding (e : Emitter) (ls : List Line) :
    (e.adding ls).sections.length = e.sections.length := by
  cases ls with
  | nil => rfl
  | cons => exact List.length_map _

/-- Adding lines writes the waiting texts of the sections first, as continued as the first of these
lines is. -/
theorem adding_eq (e : Emitter) {ls : List Line} {first : Line} (h : ls.head? = some first) :
    e.adding ls = { e with
      output := e.output ++ render (e.waiting first.continued ++ ls)
      sections := e.sections.map ({ · with flushed := true }) } := by
  obtain ⟨rest, rfl⟩ := List.head?_eq_some_iff.1 h
  rfl

/-- Once sections have been written, none waits. -/
theorem waiting_of_flushed (e : Emitter) (output : String) (continued : Bool) :
    ({ e with output, sections := e.sections.map ({ · with flushed := true }) } :
      Emitter).waiting continued = [] := by
  simp [waiting]

/-- Adding lines and then other lines adds all of them together: the sections are flushed once. -/
theorem adding_adding (e : Emitter) (first second : List Line) :
    (e.adding first).adding second = e.adding (first ++ second) := by
  cases first with
  | nil => rfl
  | cons line rest =>
      cases second with
      | nil => rw [adding_nil, List.append_nil]
      | cons line' rest' =>
          have hFlushed : ∀ sections : List Section,
              (sections.map ({ · with flushed := true })).map ({ · with flushed := true }) =
                sections.map ({ · with flushed := true }) := by
            intro sections
            simp
          rw [adding, adding, waiting_of_flushed, List.cons_append, adding, List.nil_append,
            String.append_assoc, ← render_append, List.append_assoc, List.cons_append, hFlushed]

/-- The emitter behind some lines, in a new mode and at a new level. -/
def place (e : Emitter) (ls : List Line) (inMacro : Bool) (indent : Nat) : Emitter :=
  { e.adding ls with inMacro, indent }

theorem place_place (e : Emitter) (first second : List Line) (m m' : Bool) (i i' : Nat) :
    (e.place first m i).place second m' i' = e.place (first ++ second) m' i' := by
  rw [place, place, place, ← adding_adding]
  cases second <;> rfl

theorem adding_eq_place (e : Emitter) (ls : List Line) :
    e.adding ls = e.place ls e.inMacro e.indent := by
  cases ls <;> rfl

/-- Lines are added behind others at the place that these have come to. -/
theorem adding_place (e : Emitter) (first second : List Line) (m : Bool) (i : Nat) :
    (e.place first m i).adding second = e.place (first ++ second) m i := by
  rw [adding_eq_place]
  exact e.place_place first second m m i i

/-- Writing texts at one level one after the other writes their lines. -/
theorem write_foldl (e : Emitter) (indent : Nat) (texts : List String) :
    texts.foldl (·.write indent ·) e =
      { e with output := e.output ++ render (texts.map (⟨e.inMacro, indent, ·⟩)) } := by
  induction texts generalizing e with
  | nil => simp [render]
  | cons text rest ih =>
      rw [List.foldl_cons, ih, List.map_cons, render, ← String.append_assoc]
      simp [write, Line.render, String.append_assoc]

/-- Flushing writes the texts of the sections that have written none yet, and marks all of them. -/
theorem flushSections_eq (e : Emitter) :
    e.flushSections = { e with
      output := e.output ++ render (e.waiting e.inMacro)
      sections := e.sections.map ({ · with flushed := true }) } := by
  have hWritten : ∀ (waiting : List Section) (e : Emitter),
      waiting.foldl (fun e s => (fragmentLines s.text).foldl (·.write s.indent ·) e) e =
        { e with output := e.output ++
            render (waiting.flatMap fun s => Line.fragment e.inMacro s.indent s.text) } := by
    intro waiting
    induction waiting with
    | nil => simp [render]
    | cons s rest ih =>
        intro e
        rw [List.foldl_cons, ih, write_foldl, List.flatMap_cons, render_append,
          ← String.append_assoc]
        rfl
  exact hWritten _ _

theorem pushLine_eq (e : Emitter) (text : String) :
    e.pushLine text = e.adding [⟨e.inMacro, e.indent, text⟩] := by
  rw [pushLine, flushSections_eq, adding, render_append, ← String.append_assoc]
  simp [write, render, Line.render, String.append_assoc]

/-- Pushing texts one after the other adds a line for each of them at the current level. -/
theorem pushLine_foldl (e : Emitter) (texts : List String) :
    texts.foldl pushLine e = e.adding (texts.map (⟨e.inMacro, e.indent, ·⟩)) := by
  induction texts generalizing e with
  | nil => rfl
  | cons text rest ih =>
      rw [List.foldl_cons, ih, pushLine_eq, adding_adding, inMacro_adding, indent_adding]
      rfl

theorem line_eq (e : Emitter) (text : String) :
    e.line text = e.adding (Line.fragment e.inMacro e.indent text) := e.pushLine_foldl _

/-- Writing fragments adds the lines of all of them at the current level. -/
theorem lines_eq (e : Emitter) (texts : List String) :
    e.lines texts = e.adding (texts.flatMap (Line.fragment e.inMacro e.indent)) := by
  induction texts generalizing e with
  | nil => rfl
  | cons text rest ih =>
      rw [lines, List.foldl_cons, ← lines, ih, line_eq, adding_adding, inMacro_adding,
        indent_adding, List.flatMap_cons]

theorem lineIfAny_eq (e : Emitter) (text : Option String) :
    e.lineIfAny text = e.adding (Line.optional e.inMacro e.indent text) := by
  cases text with
  | none => rfl
  | some text => exact e.line_eq text

end Emitter

/-- What is left to do when the scope is left. -/
def Scope.side (scope : Scope) : ExitSide where
  closing := scope.closing <|> (infer scope.header).closing
  indented := scope.indented.getD (infer scope.header).indented
  definesMacro := (infer scope.header).definesMacro

/-- The level of the delimiters of a scope. -/
def ExitSide.level (side : ExitSide) (indent : Nat) : Nat :=
  if side.indented then indent + 1 else indent

/-- The lines before a scope: its header and its opening side. A definition continues them. -/
def Scope.entering (scope : Scope) (continued : Bool) (indent : Nat) : List Line :=
  Line.optional (continued || scope.side.definesMacro) indent scope.header ++
    Line.optional (continued || scope.side.definesMacro) (scope.side.level indent)
      (scope.opening <|> (infer scope.header).opening)

/-- The lines behind a scope: its closing side, and the empty line that ends a definition. -/
def ExitSide.leaving (side : ExitSide) (continued : Bool) (indent : Nat) : List Line :=
  Line.optional continued (side.level indent) side.closing ++
    if side.definesMacro then [⟨false, indent, ""⟩] else []

/-- Lines of a section: its text comes before the first one, and is continued if that is. -/
def inSection (text : String) (indent : Nat) : List Line → List Line
  | [] => []
  | first :: rest => Line.fragment first.continued indent text ++ first :: rest

/-- A section writes nothing but its text before its lines. -/
theorem inSection_eq (text : String) (indent : Nat) (ls : List Line) :
    ∃ title, inSection text indent ls = title ++ ls := by
  cases ls with
  | nil => exact ⟨[], rfl⟩
  | cons => exact ⟨_, rfl⟩

/-- The first line of a section is continued just when the first line written in it is. -/
theorem inSection_head (text : String) (indent : Nat) (first : Line) (rest : List Line) :
    ∃ head, (inSection text indent (first :: rest)).head? = some head ∧
      head.continued = first.continued := by
  unfold inSection Line.fragment
  cases fragmentLines text with
  | nil => exact ⟨first, rfl, rfl⟩
  | cons => exact ⟨_, rfl, rfl⟩

namespace Emitter

/-- A level down for delimiters, if the scope has them there. -/
theorem level_place (e : Emitter) (ls : List Line) (m : Bool) (i : Nat) (side : ExitSide) :
    (if side.indented = true then { e.place ls m i with indent := i + 1 } else e.place ls m i) =
      e.place ls m (side.level i) := by
  unfold ExitSide.level
  split <;> rfl

/-- Entering a scope writes its opening lines and raises the level, and macro mode is on if it is a
definition. -/
theorem enter_eq (e : Emitter) (scope : Scope) :
    e.enter scope = (scope.side, e.place (scope.entering e.inMacro e.indent)
      (e.inMacro || scope.side.definesMacro) (scope.side.level e.indent + 1)) := by
  have hSteps (f g : Emitter)
      (hf : ({ e with inMacro := e.inMacro || scope.side.definesMacro } :
        Emitter).lineIfAny scope.header = f)
      (hg : (if scope.side.indented = true then { f with indent := f.indent + 1 } else f).lineIfAny
        (scope.opening <|> (infer scope.header).opening) = g) :
      e.enter scope = (scope.side, { g with indent := g.indent + 1 }) := by
    subst hf hg
    rfl
  have hHeader : ({ e with inMacro := e.inMacro || scope.side.definesMacro } :
      Emitter).lineIfAny scope.header =
      e.place (Line.optional (e.inMacro || scope.side.definesMacro) e.indent scope.header)
        (e.inMacro || scope.side.definesMacro) e.indent := by
    rw [lineIfAny_eq]
    exact e.adding_place [] _ _ _
  have hOpening : (if scope.side.indented = true then
      { e.place (Line.optional (e.inMacro || scope.side.definesMacro) e.indent scope.header)
          (e.inMacro || scope.side.definesMacro) e.indent with indent := e.indent + 1 }
      else e.place (Line.optional (e.inMacro || scope.side.definesMacro) e.indent scope.header)
        (e.inMacro || scope.side.definesMacro) e.indent).lineIfAny
          (scope.opening <|> (infer scope.header).opening) =
      e.place (scope.entering e.inMacro e.indent) (e.inMacro || scope.side.definesMacro)
        (scope.side.level e.indent) := by
    rw [level_place, lineIfAny_eq, adding_place]
    rfl
  exact hSteps _ _ hHeader hOpening

/-- Leaving a scope from the level inside it writes its closing lines and brings back the level of
the scope. -/
theorem exit_eq (e : Emitter) (side : ExitSide) (indent : Nat)
    (h : e.indent = side.level indent + 1) :
    e.exit side = e.place (side.leaving e.inMacro indent)
      (e.inMacro && !side.definesMacro) indent := by
  have hSteps (f g : Emitter)
      (hf : ({ e with indent := e.indent - 1 } : Emitter).lineIfAny side.closing = f)
      (hg : (if side.indented = true then { f with indent := f.indent - 1 } else f) = g) :
      e.exit side = if side.definesMacro = true then { g with inMacro := false }.blank else g := by
    subst hf hg
    rfl
  have hClosing : ({ e with indent := e.indent - 1 } : Emitter).lineIfAny side.closing =
      e.place (Line.optional e.inMacro (side.level indent) side.closing) e.inMacro
        (side.level indent) := by
    rw [lineIfAny_eq, h]
    exact e.adding_place [] _ _ _
  have hLevel (ls : List Line) : (if side.indented = true then
      { e.place ls e.inMacro (side.level indent) with indent := side.level indent - 1 }
      else e.place ls e.inMacro (side.level indent)) = e.place ls e.inMacro indent := by
    unfold ExitSide.level
    split <;> rfl
  rw [hSteps _ _ hClosing (hLevel _), ExitSide.leaving]
  cases side.definesMacro with
  | false => simp
  | true =>
      rw [if_pos rfl, if_pos rfl, Bool.not_true, Bool.and_false, blank, pushLine_eq]
      exact e.adding_place _ _ false indent

/-- A section writes its text before the first line that is written in it. -/
theorem endSection_place (e : Emitter) (text : String) (ls : List Line) (m : Bool) (i : Nat) :
    ((e.beginSection text).place ls m i).endSection =
      e.place (inSection text e.indent ls) m i := by
  cases ls with
  | nil => simp [place, inSection, beginSection, endSection]
  | cons first rest =>
      have hWaiting : (e.beginSection text).waiting first.continued =
          e.waiting first.continued ++ Line.fragment first.continued e.indent text := by
        simp [waiting, beginSection]
      obtain ⟨head, hHead, hContinued⟩ := inSection_head text e.indent first rest
      rw [place, place, adding_eq e hHead, hContinued, adding, hWaiting, inSection,
        List.append_assoc]
      simp [endSection, beginSection]

end Emitter

/-- What is written, as a tree. -/
inductive Layout where
  | plain (texts : List String)
  | both (first second : Layout)
  | scope (scope : Scope) (inner : Layout)
  | titled (text : String) (inner : Layout)

namespace Layout

/-- Lines behind the layout are continued, if those before it are or not. -/
def ends : Layout → Bool → Bool
  | plain _, continued => continued
  | both first second, continued => second.ends (first.ends continued)
  | scope s inner, continued =>
    inner.ends (continued || s.side.definesMacro) && !s.side.definesMacro
  | titled _ inner, continued => inner.ends continued

/-- The lines of a layout at a level. -/
def lines : Layout → Bool → Nat → List Line
  | plain texts, continued, indent => texts.map (⟨continued, indent, ·⟩)
  | both first second, continued, indent =>
    first.lines continued indent ++ second.lines (first.ends continued) indent
  | scope s inner, continued, indent =>
    s.entering continued indent ++
      (inner.lines (continued || s.side.definesMacro) (s.side.level indent + 1) ++
        s.side.leaving (inner.ends (continued || s.side.definesMacro)) indent)
  | titled text inner, continued, indent => inSection text indent (inner.lines continued indent)

/-- Lines are not continued behind a layout if they are not before it. -/
theorem ends_of_not_continued (layout : Layout) : layout.ends false = false := by
  induction layout with
  | plain => rfl
  | both first second ihFirst ihSecond => rw [ends, ihFirst, ihSecond]
  | scope s inner ih =>
      rw [ends, Bool.false_or]
      cases s.side.definesMacro with
      | false => rw [ih, Bool.false_and]
      | true => rw [Bool.not_true, Bool.and_false]
  | titled text inner ih => exact ih

def fragment (text : String) : Layout := plain (fragmentLines text)

/-- The layout of a fragment, if there is one. -/
def optional : Option String → Layout
  | some text => fragment text
  | none => plain []

/-- A scope is entered somewhere in a layout, and has this in it. -/
inductive Enters (s : Scope) (inner : Layout) : Layout → Prop where
  | here : Enters s inner (scope s inner)
  | first {first second : Layout} (h : Enters s inner first) : Enters s inner (both first second)
  | second {first second : Layout} (h : Enters s inner second) : Enters s inner (both first second)
  | scope {other : Scope} {layout : Layout} (h : Enters s inner layout) :
      Enters s inner (scope other layout)
  | titled {text : String} {layout : Layout} (h : Enters s inner layout) :
      Enters s inner (titled text layout)

/-- Among the lines of a layout are those of all scopes that are entered, with their closing
sides. -/
theorem Enters.lines {s : Scope} {inner layout : Layout} (h : Enters s inner layout) (m : Bool)
    (i : Nat) : ∃ before behind m' i',
      layout.lines m i = before ++ ((Layout.scope s inner).lines m' i' ++ behind) := by
  induction h generalizing m i with
  | here => exact ⟨[], [], m, i, (List.append_nil _).symm⟩
  | @first first second h ih =>
      obtain ⟨before, behind, m', i', hLines⟩ := ih m i
      refine ⟨before, behind ++ second.lines (first.ends m) i, m', i', ?_⟩
      rw [Layout.lines, hLines, List.append_assoc, List.append_assoc]
  | @second first second h ih =>
      obtain ⟨before, behind, m', i', hLines⟩ := ih (first.ends m) i
      refine ⟨first.lines m i ++ before, behind, m', i', ?_⟩
      rw [Layout.lines, hLines, List.append_assoc]
  | @scope other layout h ih =>
      obtain ⟨before, behind, m', i', hLines⟩ :=
        ih (m || other.side.definesMacro) (other.side.level i + 1)
      refine ⟨other.entering m i ++ before, behind ++
        other.side.leaving (layout.ends (m || other.side.definesMacro)) i, m', i', ?_⟩
      rw [Layout.lines, hLines]
      simp only [List.append_assoc]
  | @titled text layout h ih =>
      obtain ⟨before, behind, m', i', hLines⟩ := ih m i
      obtain ⟨title, hTitle⟩ := inSection_eq text i (layout.lines m i)
      refine ⟨title ++ before, behind, m', i', hTitle.trans ?_⟩
      rw [hLines, List.append_assoc]

end Layout

namespace Emitter

def after (e : Emitter) (layout : Layout) : Emitter :=
  e.place (layout.lines e.inMacro e.indent) (layout.ends e.inMacro) e.indent

theorem after_after (e : Emitter) (first second : Layout) :
    (e.after first).after second = e.after (.both first second) :=
  e.place_place _ _ _ _ _ _

theorem line_eq_after (e : Emitter) (text : String) : e.line text = e.after (.fragment text) :=
  (e.line_eq text).trans (e.adding_eq_place _)

theorem lines_eq_after (e : Emitter) (texts : List String) :
    e.lines texts = e.after (.plain (texts.flatMap fragmentLines)) := by
  rw [lines_eq, adding_eq_place, after, Layout.lines, List.map_flatMap]
  rfl

theorem lineIfAny_eq_after (e : Emitter) (text : Option String) :
    e.lineIfAny text = e.after (.optional text) := by
  cases text with
  | none => rfl
  | some text => exact e.line_eq_after text

theorem blank_eq_after (e : Emitter) : e.blank = e.after (.plain [""]) :=
  (e.pushLine_eq "").trans (e.adding_eq_place _)

/-- A scope is left as it was entered. -/
theorem exit_after (e : Emitter) (scope : Scope) (inner : Layout) :
    ((e.enter scope).2.after inner).exit (e.enter scope).1 = e.after (.scope scope inner) := by
  rw [enter_eq, exit_eq _ _ e.indent rfl, after, place_place, place_place]
  rfl

theorem endSection_after (e : Emitter) (text : String) (inner : Layout) :
    ((e.beginSection text).after inner).endSection = e.after (.titled text inner) :=
  e.endSection_place text _ _ _

end Emitter

end Metagen.Emission
