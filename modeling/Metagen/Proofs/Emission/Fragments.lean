import Metagen.Proofs.Emission.Continuation
import Metagen.Proofs.Text.Indentation

/-! Fragments. A fragment is written line by line, moved left by the indentation that its lines
share. How far it was moved right before makes no difference, and neither do quotes around it. -/

namespace Metagen.Emission

open Text Emitter

/-- A line of a file that is complete: it has no line feed, and no blank at its end. -/
def Tidy (line : String) : Prop :=
  '\n' ∉ line.toList ∧ ∀ c ∈ line.toList.getLast?, isBlank c = false

/-- The second emitter has appended tidy lines to the text of the first one. -/
def Appends (e e' : Emitter) : Prop :=
  ∃ appended : List String, (∀ line ∈ appended, Tidy line) ∧
    e'.output = e.output ++ String.join (appended.map (· ++ "\n"))

/-- A line as it is laid out holds no line feed and has no blank at its end, also where a backslash
continues it. -/
theorem Line.tidy_layOut (line : Line) (h : '\n' ∉ line.text.toList) :
    Tidy (layOut line.continued line.indent line.text) := by
  obtain ⟨chars, hRender, hSingle, -⟩ := line.exists_render h
  have hChars : (layOut line.continued line.indent line.text).toList = chars := by
    rw [Line.render, String.toList_append] at hRender
    exact List.append_cancel_right hRender
  refine ⟨hChars ▸ hSingle, fun c hc => ?_⟩
  rw [layOut, trimEnd, String.toList_ofList] at hc
  exact getLast?_dropTrailing hc

/-- Rendering is laying out each line on its own, with a line feed behind every one of them. -/
theorem render_eq_join (ls : List Line) : render ls = String.join
    ((ls.map fun line => layOut line.continued line.indent line.text).map (· ++ "\n")) := by
  induction ls with
  | nil => rfl
  | cons line rest ih => simp [render, Line.render, ih]

/-- Lines are appended without blanks at their ends, and so are the texts of sections that wait. -/
theorem Emitter.appends_adding (e : Emitter) {ls : List Line}
    (h : ∀ line ∈ ls, '\n' ∉ line.text.toList) : Appends e (e.adding ls) := by
  cases ls with
  | nil => exact ⟨[], nofun, by simp⟩
  | cons first rest =>
      refine ⟨(e.waiting first.continued ++ first :: rest).map fun line =>
        layOut line.continued line.indent line.text, ?_, ?_⟩
      · intro written hWritten
        obtain ⟨line, hLine, rfl⟩ := List.mem_map.1 hWritten
        apply line.tidy_layOut
        rcases List.mem_append.1 hLine with hWaiting | hLine
        · obtain ⟨s, -, hTitle⟩ := List.mem_flatMap.1 hWaiting
          have hOptional : line ∈ Line.optional first.continued s.indent (some s.text) := hTitle
          exact Line.notMem_of_mem_optional hOptional
        · exact h line hLine
      · rw [← render_eq_join]
        rfl

theorem Emitter.appends_line (e : Emitter) (text : String) : Appends e (e.line text) := by
  rw [line_eq]
  apply appends_adding
  intro line hLine
  have hOptional : line ∈ Line.optional e.inMacro e.indent (some text) := hLine
  exact Line.notMem_of_mem_optional hOptional

/-- For a fragment of lines of which the first and the last are not blank, neither an indentation in
front of all lines nor the quotes around it matter. What it appends is its lines, moved left. -/
theorem line_ignores_indentation (e : Emitter) {block : List String} {w : String}
    (hBlock : Framed block) (hw : ∀ c ∈ w.toList, c = ' ' ∨ c = '\t') :
    e.line ("\n".intercalate block) = (dedentLines none block).foldl pushLine e ∧
      e.line ("\n".intercalate (block.map (w ++ ·))) = e.line ("\n".intercalate block) ∧
      e.line ("\n" ++ ("\n".intercalate (block.map (w ++ ·)) ++ ("\n" ++ w))) =
        e.line ("\n".intercalate block) ∧
      Appends e (e.line ("\n".intercalate block)) := by
  have hBlank : isAllBlank w = true := by
    rw [isAllBlank_iff]
    intro c hc
    rcases hw c hc with rfl | rfl <;> decide
  have hSingle : '\n' ∉ w.toList := fun hFeed => by
    rcases hw '\n' hFeed with h | h <;> exact absurd h (by decide)
  have hMoves : MovesRight w (w ++ ·) block := fun _ _ => .inl rfl
  have hMoved : dedentLines none (block.map (w ++ ·)) = dedentLines none block :=
    hMoves.dedentLines_eq hBlank hBlock.measures
  have hBlock' := hBlock.moved hBlank hSingle
  have hLine (text : String) (h : fragmentLines text = dedentLines none block) :
      e.line text = (dedentLines none block).foldl pushLine e := by
    rw [line, h]
  have hJoined := hLine _ hBlock.dedentLines_joined
  refine ⟨hJoined, ?_, ?_, e.appends_line _⟩
  · rw [hJoined]
    exact hLine _ (hBlock'.dedentLines_joined.trans hMoved)
  · rw [hJoined]
    exact hLine _ ((hBlock'.dedentLines_literal hBlank hSingle).trans hMoved)

/-- A blank line between two lines, moved right by a tab and a space. -/
theorem line_ignores_tab :
    Framed ["a", " ", "  b"] ∧ (∀ c ∈ "\t ".toList, c = ' ' ∨ c = '\t') ∧
      (({} : Emitter).line "\n\t a\n\t  \n\t   b\n\t ").output = "a\n\n  b\n" := by
  have hBlock : Framed ["a", " ", "  b"] :=
    ⟨⟨"a", rfl, by decide⟩, ⟨"  b", rfl, by decide⟩, by simp⟩
  have hTab : ∀ c ∈ "\t ".toList, c = ' ' ∨ c = '\t' := by simp
  have hQuoted := (line_ignores_indentation {} hBlock hTab).2.2.1
  have hPlain : (({} : Emitter).line "a\n \n  b").output = "a\n\n  b\n" := by decide +kernel
  exact ⟨hBlock, hTab, (congrArg output hQuoted).trans hPlain⟩

end Metagen.Emission
