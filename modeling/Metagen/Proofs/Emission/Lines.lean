import Metagen.Proofs.Emission.Program
import Metagen.Proofs.Text.Lines

/-! Programs write line by line: no text that they write goes over a line end. -/

namespace Metagen.Emission

open Text Emitter

/-- Lines of a fragment are what stands between its line feeds, so that none of them holds one. -/
theorem notMem_of_mem_fragmentLines {text line : String} (h : line ∈ fragmentLines text) :
    '\n' ∉ line.toList := by
  obtain ⟨literal, hLiteral, rfl⟩ := List.mem_map.1 h
  exact fun hFeed => notMem_of_mem_lines (mem_lines_of_mem_literalLines hLiteral)
    ((shiftLeft_sublist _ literal).subset hFeed)

/-- A fragment with a solid character has a line. -/
theorem fragmentLines_ne_nil {text : String} {c : Char} (h : c ∈ text.toList)
    (hSolid : isBlank c = false) : fragmentLines text ≠ [] := by
  unfold fragmentLines dedentLines
  rw [ne_eq, List.map_eq_nil_iff]
  exact literalLines_ne_nil h hSolid

theorem Line.notMem_of_mem_optional {continued : Bool} {indent : Nat} {text : Option String}
    {line : Line} (h : line ∈ Line.optional continued indent text) : '\n' ∉ line.text.toList := by
  cases text with
  | none => cases h
  | some text =>
      obtain ⟨part, hPart, rfl⟩ := List.mem_map.1 h
      exact notMem_of_mem_fragmentLines hPart

namespace Layout

/-- No text that is written as it is goes over a line end. -/
inductive Single : Layout → Prop where
  | plain {texts : List String} (h : ∀ text ∈ texts, '\n' ∉ text.toList) : Single (plain texts)
  | both {first second : Layout} (hFirst : Single first) (hSecond : Single second) :
      Single (both first second)
  | scope {s : Scope} {inner : Layout} (h : Single inner) : Single (scope s inner)
  | titled {text : String} {inner : Layout} (h : Single inner) : Single (titled text inner)

theorem single_nothing : (plain []).Single := .plain nofun

theorem single_fragment (text : String) : (fragment text).Single :=
  .plain fun _ => notMem_of_mem_fragmentLines

theorem single_fragments (texts : List String) :
    (plain (texts.flatMap fragmentLines)).Single := by
  refine .plain fun line hLine => ?_
  obtain ⟨text, -, hMem⟩ := List.mem_flatMap.1 hLine
  exact notMem_of_mem_fragmentLines hMem

theorem single_optional (text : Option String) : (optional text).Single := by
  cases text with
  | none => exact single_nothing
  | some text => exact single_fragment text

/-- Lines of a layout that is written line by line hold no line feed. -/
theorem Single.notMem_of_mem_lines {layout : Layout} (h : layout.Single) {continued : Bool}
    {indent : Nat} {line : Line} (hLine : line ∈ layout.lines continued indent) :
    '\n' ∉ line.text.toList := by
  induction h generalizing continued indent with
  | plain h =>
      obtain ⟨text, hText, rfl⟩ := List.mem_map.1 hLine
      exact h text hText
  | both hFirst hSecond ihFirst ihSecond =>
      rcases List.mem_append.1 hLine with hLine | hLine
      · exact ihFirst hLine
      · exact ihSecond hLine
  | scope h ih =>
      rcases List.mem_append.1 hLine with hEntering | hLine
      · rcases List.mem_append.1 hEntering with hHeader | hOpening
        · exact Line.notMem_of_mem_optional hHeader
        · exact Line.notMem_of_mem_optional hOpening
      · rcases List.mem_append.1 hLine with hInner | hLeaving
        · exact ih hInner
        · rcases List.mem_append.1 hLeaving with hClosing | hBlank
          · exact Line.notMem_of_mem_optional hClosing
          · split at hBlank
            · rw [List.mem_singleton.1 hBlank]
              simp
            · cases hBlank
  | @titled text inner h ih =>
      rw [Layout.lines] at hLine
      cases hLines : inner.lines continued indent with
      | nil =>
          rw [hLines] at hLine
          cases hLine
      | cons first rest =>
          rw [hLines] at hLine
          rcases List.mem_append.1 hLine with hTitle | hInner
          · have hText : line ∈ Line.optional first.continued indent (some text) := hTitle
            exact Line.notMem_of_mem_optional hText
          · exact ih (hLines ▸ hInner)

end Layout

namespace Showing

variable {Failure Result Next Item : Type}

/-- Whatever is written is written line by line. -/
def Single (showing : Showing Failure Result) : Prop := ∀ l, (showing l).layout.Single

theorem single_done (result : Result) : Single (done result : Showing Failure Result) :=
  fun _ => Layout.single_nothing

theorem single_fail (failure : Failure) : Single (fail failure : Showing Failure Result) :=
  fun _ => Layout.single_nothing

theorem single_write {layout : Layout} (h : layout.Single) :
    Single (write layout : Showing Failure Unit) := fun _ => h

/-- Actions that write line by line do so one behind the other. -/
theorem Single.andThen {first : Showing Failure Result} {second : Result → Showing Failure Next}
    (hFirst : first.Single) (hSecond : ∀ a, (second a).Single) : (first.andThen second).Single := by
  intro l
  unfold Showing.andThen
  cases (first l).result with
  | error failure => exact hFirst l
  | ok a => exact .both (hFirst l) (hSecond a _)

theorem Single.within_scope {body : Showing Failure Result} (h : body.Single) (scope : Scope) :
    (body.within (.scope scope)).Single := fun l => .scope (h l)

/-- A definition is written line by line, as its expansion is split into lines before anything is
written. -/
theorem single_definitionLayout (name : String) (params : Option (List String))
    (expansion : String) (doWhile : Bool) :
    (definitionLayout name params expansion doWhile).Single := by
  unfold definitionLayout
  dsimp only
  split
  · refine .scope ?_
    split
    · exact .scope (Layout.single_fragment _)
    · exact Layout.single_fragment _
  · split
    · exact Layout.single_fragment _
    · exact Layout.single_fragment _

theorem single_register (name : String) (group : OverloadGroup) : Single (register name group) := by
  intro l
  unfold register
  split
  · exact Layout.single_nothing
  · exact Layout.single_nothing

/-- Every definition is written line by line, if it is written at all. -/
theorem single_define (d : Definition) : Single (define d) := by
  unfold define
  split
  · exact single_write (single_definitionLayout _ _ _ _)
  · split
    · exact single_fail _
    · split
      · exact single_fail _
      · exact (single_register _ _).andThen fun _ => single_write (single_definitionLayout _ _ _ _)

theorem single_enumeration (d : Enumeration) : Single (enumeration d) := by
  unfold enumeration
  split
  · exact single_fail _
  · exact (Single.within_scope (single_write (Layout.single_fragments _)) _).andThen
      fun _ => single_write (Layout.single_optional _)

theorem single_table (t : Table) : Single (table t) := by
  unfold table
  split
  · exact single_fail _
  · exact Single.within_scope (single_write (Layout.single_fragments _)) _

variable {condition : Item → Showing Failure String} {body : Item → Showing Failure Unit}

/-- Branches are written line by line if their conditions and bodies are. -/
theorem single_branches (hCondition : ∀ item, (condition item).Single)
    (hBody : ∀ item, (body item).Single) (style : ChainStyle) (count : Nat) (hasElse : Bool)
    (index : Nat) (items : List Item) :
    (branches style count hasElse condition body index items).Single := by
  induction items generalizing index with
  | nil => exact single_done ()
  | cons item rest ih =>
      exact (hCondition item).andThen fun _ =>
        ((hBody item).within_scope _).andThen fun _ => ih (index + 1)

/-- A chain is written line by line if its conditions and bodies are, and what it does otherwise. -/
theorem single_chain (hCondition : ∀ item, (condition item).Single)
    (hBody : ∀ item, (body item).Single) (wrap : EmissionError → Failure) (style : ChainStyle)
    (items : List Item) (otherwise : Option (Showing Failure Unit))
    (hElse : ∀ elseBody ∈ otherwise, elseBody.Single) :
    (chain wrap style items condition body otherwise).Single := by
  unfold chain
  split
  · exact single_branches hCondition hBody _ _ _ _ _
  · split
    · exact single_fail _
    · refine (single_branches hCondition hBody _ _ _ _ _).andThen fun _ => ?_
      split
      · exact hElse _ rfl
      · exact (hElse _ rfl).within_scope _

end Showing

/-- No text that a program writes goes over a line end. -/
theorem Program.single_showing {Failure Result : Type} (wrap : EmissionError → Failure)
    (p : Program Failure Result) : (p.showing wrap).Single := by
  induction p with
  | done result => exact Showing.single_done result
  | fail failure => exact Showing.single_fail failure
  | andThen first second ihFirst ihSecond => exact ihFirst.andThen ihSecond
  | line text => exact Showing.single_write (Layout.single_fragment text)
  | blank => exact Showing.single_write (.plain (by simp))
  | inScope scope body ih => exact ih.within_scope scope
  | inSection text body ih => exact fun l => .titled (ih l)
  | define d => exact fun l => Showing.single_define d l
  | enumeration d => exact fun l => Showing.single_enumeration d l
  | table t => exact fun l => Showing.single_table t l
  | chain style items condition body ihCondition ihBody =>
      exact Showing.single_chain ihCondition ihBody wrap style items none nofun
  | chainElse style items condition body elseBody ihCondition ihBody ihElse =>
      refine Showing.single_chain ihCondition ihBody wrap style items _ ?_
      rintro _ ⟨⟩
      exact ihElse

end Metagen.Emission
