import Metagen.Proofs.Emission.Dispatcher
import Metagen.Proofs.Emission.Headers
import Metagen.Proofs.Emission.Runs

/-! The text of chains. Whatever conditions and bodies do to the rest of a state, the text that a
chain appends is put together from the conditions and the texts of the bodies, as its style says. -/

namespace Metagen.Emission

open Text Emitter HoldsEmitter

def plainLine (indent : Nat) (text : String) : String :=
  trimEnd (spaces (indent * indentWidth) ++ text) ++ "\n"

/-- A header with a block in braces. -/
def braced (indent : Nat) (header inner : String) : String :=
  plainLine indent header ++ (plainLine indent "\x7b" ++ (inner ++ plainLine indent "\x7d"))

/-- A header with what is behind it. -/
def headed (indent : Nat) (header inner : String) : String := plainLine indent header ++ inner

/-- The text of a chain at a level, from conditions with the texts of their bodies, and the text of
the else body. -/
def chainText (indent : Nat) :
    ChainStyle → List (String × String) → Option String → String
  | .separate, branches, _ =>
    String.join (branches.map fun b => braced indent ("if (" ++ b.1 ++ ")") b.2)
  | .elseIf, [], otherwise => otherwise.getD ""
  | .elseIf, first :: rest, otherwise =>
    braced indent ("if (" ++ first.1 ++ ")") first.2 ++
      (String.join (rest.map fun b => braced indent ("else if (" ++ b.1 ++ ")") b.2) ++
        otherwise.elim "" (braced indent "else"))
  | .preSeparate, branches, _ =>
    String.join (branches.map fun b =>
      headed indent ("#if " ++ b.1) b.2 ++ plainLine indent "#endif")
  | .preElseIf, [], otherwise => otherwise.getD ""
  | .preElseIf, first :: rest, otherwise =>
    headed indent ("#if " ++ first.1) first.2 ++
      (String.join (rest.map fun b => headed indent ("#elif " ++ b.1) b.2) ++
        (otherwise.elim "" (headed indent "#else") ++ plainLine indent "#endif"))

theorem trimEnd_append_trimEnd (front text : String) :
    trimEnd (front ++ trimEnd text) = trimEnd (front ++ text) := by
  obtain ⟨blanks, hBlanks, hText⟩ := exists_dropTrailing text.toList
  have hSame : dropTrailing isBlank (front.toList ++ dropTrailing isBlank text.toList) =
      dropTrailing isBlank (front.toList ++ text.toList) := by
    conv_rhs => rw [hText, ← List.append_assoc, dropTrailing_append_of_blank hBlanks]
  simp only [trimEnd, String.toList_append, String.toList_ofList, hSame]

/-- A text of one line that does not start with a blank is one line of output. -/
theorem render_fragment {text : String} {c : Char} (hFirst : text.toList.head? = some c)
    (hSolid : isBlank c = false) (hSingle : '\n' ∉ text.toList) (indent : Nat) :
    render (Line.fragment false indent text) = plainLine indent text := by
  rw [Line.fragment, fragmentLines_of_single hFirst hSolid hSingle, List.map_singleton, render,
    render, String.append_empty, Line.render, plainLine, layOut, if_neg Bool.false_ne_true,
    String.append_empty, trimEnd_append_trimEnd]

/-- What a scope writes in front of its body and behind it, at each level. -/
structure Scope.SurroundsWith (scope : Scope) (front back : Nat → String) : Prop where
  definesMacro : scope.side.definesMacro = false
  indented : scope.side.indented = false
  front : ∀ indent, render (scope.entering false indent) = front indent
  back : ∀ indent, render (scope.side.leaving false indent) = back indent

namespace Scope

variable {header : String} {c : Char}

/-- A header that asks for braces surrounds what is inside with the header, an opening brace and a
closing one. -/
theorem surroundsWith_of_braces (h : inferFrom header = braces)
    (hFirst : header.toList.head? = some c) (hSolid : isBlank c = false)
    (hSingle : '\n' ∉ header.toList) :
    (Scope.headed header).SurroundsWith (fun i => plainLine i header ++ plainLine i "\x7b")
      (fun i => plainLine i "\x7d") where
  definesMacro := by rw [side_of_braces h]
  indented := by rw [side_of_braces h]
  front indent := by
    rw [entering_of_braces h, render_append, render_fragment hFirst hSolid hSingle,
      render_fragment (c := '\x7b') rfl (by decide) (by decide)]
  back indent := by
    have hBrace : render (Line.fragment false indent "\x7d") = plainLine indent "\x7d" :=
      render_fragment (c := '\x7d') rfl (by decide) (by decide) indent
    rw [side_of_braces h, ExitSide.leaving, if_neg Bool.false_ne_true, List.append_nil]
    exact hBrace

/-- A header of a conditional surrounds what is inside with itself and its closing line, which is
the usual one unless another is given. -/
theorem surroundsWith_of_conditional (h : leadingKeyword header ∈ ["#if", "#elif", "#else"])
    (hFirst : header.toList.head? = some c) (hSolid : isBlank c = false)
    (hSingle : '\n' ∉ header.toList) (closing : Option String) :
    ({ header := some header, closing } : Scope).SurroundsWith (fun i => plainLine i header)
      (fun i => render (Line.optional false i (closing <|> some "#endif"))) where
  definesMacro := by rw [side_of_conditional closing h]
  indented := by rw [side_of_conditional closing h]
  front indent := by
    rw [entering_of_conditional closing h, render_fragment hFirst hSolid hSingle]
  back indent := by
    rw [side_of_conditional closing h, ExitSide.leaving, if_neg Bool.false_ne_true,
      List.append_nil]
    rfl

end Scope

theorem render_endif (indent : Nat) :
    render (Line.optional false indent (some "#endif")) = plainLine indent "#endif" :=
  render_fragment (c := '#') rfl (by decide) (by decide) indent

/-- Nothing but its level decides how an emitter writes a line: the line is not in a definition, and
no section waits for it. -/
structure Emitter.Calm (e : Emitter) : Prop where
  inMacro : e.inMacro = false
  sections : ∀ s ∈ e.sections, s.flushed = true

/-- The second emitter is as calm as the first one, at its level, and has appended a text. -/
structure Emitter.Appended (e e' : Emitter) (text : String) : Prop where
  calm : e'.Calm
  indent : e'.indent = e.indent
  output : e'.output = e.output ++ text

/-- What two steps append one after the other is the text of the first and behind it that of the
second. -/
theorem Emitter.Appended.trans {e₁ e₂ e₃ : Emitter} {first second : String}
    (hFirst : e₁.Appended e₂ first) (hSecond : e₂.Appended e₃ second) :
    e₁.Appended e₃ (first ++ second) where
  calm := hSecond.calm
  indent := hSecond.indent.trans hFirst.indent
  output := by rw [hSecond.output, hFirst.output, String.append_assoc]

namespace Emitter

variable {e : Emitter}

/-- When lines are added to a calm emitter no section waits afterwards, since none has waited
before. -/
theorem sections_adding_flushed (h : e.Calm) (ls : List Line) :
    ∀ s ∈ (e.adding ls).sections, s.flushed = true := by
  cases ls with
  | nil => exact h.sections
  | cons first rest =>
      intro s hs
      obtain ⟨_, -, rfl⟩ := List.mem_map.1 hs
      rfl

/-- Lines that are added at another level. -/
theorem Calm.place (h : e.Calm) (ls : List Line) (indent : Nat) :
    (e.place ls false indent).Calm ∧ (e.place ls false indent).output = e.output ++ render ls :=
  ⟨⟨rfl, sections_adding_flushed h ls⟩, output_adding_of_flushed h.sections ls⟩

end Emitter

variable {Failure State Item : Type} [HoldsEmitter State]

/-- A condition that is a single line, and whose callback emits nothing. -/
def QuietCondition (condition : Action Failure State String) : Prop :=
  ∀ s text s', condition s = .ok text s' →
    '\n' ∉ text.toList ∧ HoldsEmitter.emitter s' = HoldsEmitter.emitter s

/-- A body that appends text wherever it succeeds, and leaves the level as it was. -/
def FillsBody (body : Action Failure State Unit) : Prop :=
  ∀ s s', body s = .ok () s' → (emitter s).Calm → ∃ text, (emitter s).Appended (emitter s') text

/-- The callbacks of a chain. -/
structure Callbacks (items : List Item) (condition : Item → Action Failure State String)
    (body : Item → Action Failure State Unit) (otherwise : Option (Action Failure State Unit)) :
    Prop where
  conditions : ∀ item ∈ items, QuietCondition (condition item)
  bodies : ∀ item ∈ items, FillsBody (body item)
  otherwise : ∀ elseBody ∈ otherwise, FillsBody elseBody

/-- Two states are the same save for their emitters. -/
def SameRest (s t : State) : Prop := ∀ e, setEmitter t e = setEmitter s e

theorem sameRest_setEmitter (s : State) (e : Emitter) : SameRest s (setEmitter s e) :=
  setEmitter_setEmitter s e

/-- From a state the body runs at a level, and appends a text. Its emitter is not that of the state
but the one that the chain has prepared, and the chain may write more behind it. -/
def Ran (body : Action Failure State Unit) (level : Nat) (s : State) (text : String) (s' : State) :
    Prop :=
  ∃ start left, SameRest s start ∧ body start = .ok () left ∧ (emitter start).indent = level ∧
    (emitter left).output = (emitter start).output ++ text ∧ SameRest left s'

/-- The callbacks run once for each item, in this order, with these conditions and texts. -/
inductive RanAll (condition : Item → Action Failure State String)
    (body : Item → Action Failure State Unit) (level : Nat) :
    State → List Item → List (String × String) → State → Prop where
  | nil (s : State) : RanAll condition body level s [] [] s
  | cons {s tested next last : State} {item : Item} {rest : List Item} {text written : String}
      {branches : List (String × String)} (hCondition : condition item s = .ok text tested)
      (hBody : Ran (body item) level tested written next)
      (hRest : RanAll condition body level next rest branches last) :
      RanAll condition body level s (item :: rest) ((text, written) :: branches) last

/-- The else body runs if there is one. -/
inductive RanLast (level : Nat) :
    State → Option (Action Failure State Unit) → Option String → State → Prop where
  | none (s : State) : RanLast level s none none s
  | some {s s' : State} {elseBody : Action Failure State Unit} {written : String}
      (h : Ran elseBody level s written s') : RanLast level s (some elseBody) (some written) s'

/-- A scope that ends well: its body has run from the entered scope, and what it left is exited. -/
theorem withScope_ok {scope : Scope} {body : Action Failure State Unit} {s s' : State}
    (h : withScope scope body s = .ok () s') :
    ∃ left, body (setEmitter s ((emitter s).enter scope).2) = .ok () left ∧
      s' = setEmitter left ((emitter left).exit ((emitter s).enter scope).1) := by
  unfold withScope andAfter at h
  dsimp only at h
  split at h
  next left hBody =>
    cases h
    exact ⟨left, hBody, rfl⟩
  next => cases h

/-- A scope fails only where its body does. -/
theorem withScope_error {scope : Scope} {body : Action Failure State Unit} {s s' : State}
    {failure : Failure} (h : withScope scope body s = .error failure s') :
    ∃ r left, body r = .error failure left := by
  unfold withScope andAfter at h
  dsimp only at h
  split at h
  next => cases h
  next left hBody =>
    cases h
    exact ⟨_, left, hBody⟩

/-- A scope is written around its body, which runs one level deeper. -/
theorem Scope.SurroundsWith.withScope {scope : Scope} {front back : Nat → String}
    (hScope : scope.SurroundsWith front back) {body : Action Failure State Unit}
    (hBody : FillsBody body)
    {s s' : State} (hCalm : (emitter s).Calm) (h : withScope scope body s = .ok () s') :
    ∃ written, Ran body ((emitter s).indent + 1) s written s' ∧
      (emitter s).Appended (emitter s')
        (front (emitter s).indent ++ (written ++ back (emitter s).indent)) := by
  obtain ⟨left, hRun, rfl⟩ := withScope_ok h
  have hLevel : scope.side.level (emitter s).indent = (emitter s).indent := by
    rw [ExitSide.level, hScope.indented, if_neg Bool.false_ne_true]
  have hEnter : (emitter s).enter scope = (scope.side,
      (emitter s).place (scope.entering false (emitter s).indent) false
        ((emitter s).indent + 1)) := by
    rw [enter_eq, hCalm.inMacro, hScope.definesMacro, hLevel, Bool.false_or]
  rw [hEnter] at hRun ⊢
  obtain ⟨hOpened, hFront⟩ :=
    hCalm.place (scope.entering false (emitter s).indent) ((emitter s).indent + 1)
  obtain ⟨written, hWritten⟩ := hBody _ _ hRun (by rwa [emitter_setEmitter])
  rw [emitter_setEmitter] at hWritten
  have hExit : (emitter left).exit scope.side =
      (emitter left).place (scope.side.leaving false (emitter s).indent) false
        (emitter s).indent := by
    have hIndent : (emitter left).indent = scope.side.level (emitter s).indent + 1 := by
      rw [hWritten.indent, hLevel]
      rfl
    rw [exit_eq _ _ _ hIndent, hWritten.calm.inMacro, Bool.false_and]
  obtain ⟨hClosed, hBack⟩ :=
    hWritten.calm.place (scope.side.leaving false (emitter s).indent) (emitter s).indent
  have hRan : Ran body ((emitter s).indent + 1) s written
      (setEmitter left ((emitter left).exit scope.side)) :=
    ⟨_, left, sameRest_setEmitter s _, hRun, by rw [emitter_setEmitter]; rfl,
      by rw [emitter_setEmitter]; exact hWritten.output, sameRest_setEmitter left _⟩
  refine ⟨written, hRan, ?_⟩
  rw [emitter_setEmitter, hExit]
  refine ⟨hClosed, rfl, ?_⟩
  rw [hBack, hWritten.output, hFront, hScope.front, hScope.back]
  simp only [String.append_assoc]

/-- What branch `index` of a chain has in front of its body. -/
def branchFront (style : ChainStyle) (index : Nat) (condition : String) (indent : Nat) : String :=
  match style with
  | .separate => plainLine indent ("if (" ++ condition ++ ")") ++ plainLine indent "\x7b"
  | .elseIf =>
    plainLine indent ((if index == 0 then "if (" else "else if (") ++ condition ++ ")") ++
      plainLine indent "\x7b"
  | .preSeparate => plainLine indent ("#if " ++ condition)
  | .preElseIf => plainLine indent (conditionLine index condition)

/-- What a branch has behind its body. -/
def branchBack (style : ChainStyle) (last : Bool) (indent : Nat) : String :=
  match style with
  | .separate | .elseIf => plainLine indent "\x7d"
  | .preSeparate => plainLine indent "#endif"
  | .preElseIf => if last then plainLine indent "#endif" else ""

/-- A branch of a chain is surrounded by what its style writes in front of the branch and behind
it. -/
theorem surroundsWith_entrance (style : ChainStyle) (index count : Nat) {condition : String}
    (hSingle : '\n' ∉ condition.toList) (hasElse : Bool) :
    (style.entrance index count condition hasElse).SurroundsWith (branchFront style index condition)
      (branchBack style (index + 1 == count && !hasElse)) := by
  have hIf : (Scope.headed ("if (" ++ condition ++ ")")).SurroundsWith
      (fun i => plainLine i ("if (" ++ condition ++ ")") ++ plainLine i "\x7b")
      (fun i => plainLine i "\x7d") :=
    Scope.surroundsWith_of_braces (inferFrom_if condition) (c := 'i') (by simp) (by decide)
      (by simp [hSingle])
  have hElseIf : (Scope.headed ("else if (" ++ condition ++ ")")).SurroundsWith
      (fun i => plainLine i ("else if (" ++ condition ++ ")") ++ plainLine i "\x7b")
      (fun i => plainLine i "\x7d") :=
    Scope.surroundsWith_of_braces (inferFrom_elseIf condition) (c := 'e') (by simp) (by decide)
      (by simp [hSingle])
  have hConditional (index : Nat) (closing : Option String) :
      ({ header := some (conditionLine index condition), closing } : Scope).SurroundsWith
        (fun i => plainLine i (conditionLine index condition))
        (fun i => render (Line.optional false i (closing <|> some "#endif"))) := by
    have hFirst : (conditionLine index condition).toList.head? = some '#' := by
      unfold conditionLine
      split <;> simp
    have hLine : '\n' ∉ (conditionLine index condition).toList := by
      unfold conditionLine
      split <;> simp [hSingle]
    exact Scope.surroundsWith_of_conditional (leadingKeyword_conditionLine index condition) hFirst
      (by decide) hLine closing
  cases style with
  | separate => exact hIf
  | elseIf =>
      unfold ChainStyle.entrance branchFront
      dsimp only
      split
      · exact hIf
      · exact hElseIf
  | preSeparate =>
      have hLine : conditionLine 0 condition = "#if " ++ condition := by simp [conditionLine]
      have hScope := hConditional 0 none
      rw [hLine] at hScope
      exact ⟨hScope.definesMacro, hScope.indented, hScope.front,
        fun i => (hScope.back i).trans (render_endif i)⟩
  | preElseIf =>
      have hScope := hConditional index
        (some (if index + 1 == count && !hasElse then "#endif" else ""))
      refine ⟨hScope.definesMacro, hScope.indented, hScope.front,
        fun i => (hScope.back i).trans ?_⟩
      rw [branchBack]
      cases index + 1 == count && !hasElse with
      | true => exact render_endif i
      | false => rfl

/-- What the else branch has in front of its body. -/
def elseFront (style : ChainStyle) (indent : Nat) : String :=
  if style = .preElseIf then plainLine indent "#else"
  else plainLine indent "else" ++ plainLine indent "\x7b"

/-- The branch for all other cases is surrounded by what the style writes for it, and ends the
chain. -/
theorem surroundsWith_otherwise {style : ChainStyle} {scope : Scope}
    (h : style.otherwise = .ok scope) :
    scope.SurroundsWith (elseFront style) (branchBack style true) := by
  cases style with
  | separate => cases h
  | preSeparate => cases h
  | elseIf =>
      cases h
      exact Scope.surroundsWith_of_braces (by decide) (c := 'e') (by decide) (by decide) (by decide)
  | preElseIf =>
      cases h
      have hScope : (Scope.headed "#else").SurroundsWith (fun i => plainLine i "#else") _ :=
        Scope.surroundsWith_of_conditional (by decide) (c := '#') (by decide) (by decide)
          (by decide)
          none
      exact ⟨hScope.definesMacro, hScope.indented, hScope.front,
        fun i => (hScope.back i).trans (render_endif i)⟩

/-- The text of the branches from number `index` on. -/
def branchesText (style : ChainStyle) (count : Nat) (hasElse : Bool) (indent : Nat) :
    Nat → List (String × String) → String
  | _, [] => ""
  | index, b :: rest =>
    branchFront style index b.1 indent ++
      (b.2 ++ branchBack style (index + 1 == count && !hasElse) indent) ++
        branchesText style count hasElse indent (index + 1) rest

/-- Branches that are complete on their own. -/
theorem branchesText_separate (count : Nat) (hasElse : Bool) (indent index : Nat)
    (pieces : List (String × String)) :
    branchesText .separate count hasElse indent index pieces =
        chainText indent .separate pieces none ∧
      branchesText .preSeparate count hasElse indent index pieces =
        chainText indent .preSeparate pieces none := by
  induction pieces generalizing index with
  | nil => exact ⟨rfl, rfl⟩
  | cons b rest ih =>
      obtain ⟨hCode, hDirectives⟩ := ih (index + 1)
      rw [branchesText, branchesText, hCode, hDirectives]
      simp [chainText, branchFront, branchBack, braced, headed, String.append_assoc]

/-- The branches behind the first one in a chain of code. -/
theorem branchesText_elseIf (count : Nat) (hasElse : Bool) (indent index : Nat)
    (pieces : List (String × String)) :
    branchesText .elseIf count hasElse indent (index + 1) pieces =
      String.join (pieces.map fun b => braced indent ("else if (" ++ b.1 ++ ")") b.2) := by
  induction pieces generalizing index with
  | nil => rfl
  | cons b rest ih =>
      rw [branchesText, ih]
      simp [branchFront, branchBack, braced, String.append_assoc]

/-- The branches of a chain for the preprocessor that ends in an else branch. -/
theorem branchesText_elif (count indent index : Nat) (pieces : List (String × String)) :
    branchesText .preElseIf count true indent (index + 1) pieces =
      String.join (pieces.map fun b => headed indent ("#elif " ++ b.1) b.2) := by
  induction pieces generalizing index with
  | nil => rfl
  | cons b rest ih =>
      rw [branchesText, ih]
      simp [branchFront, branchBack, headed, conditionLine, String.append_assoc]

/-- The branches of a chain for the preprocessor without an else branch. The last one is closed. -/
theorem branchesText_elif_closed (count indent index : Nat) (first : String × String)
    (rest : List (String × String)) (hCount : index + 1 + rest.length = count) :
    branchesText .preElseIf count false indent index (first :: rest) =
      headed indent (conditionLine index first.1) first.2 ++
        (String.join (rest.map fun b => headed indent ("#elif " ++ b.1) b.2) ++
          plainLine indent "#endif") := by
  induction rest generalizing index first with
  | nil =>
      have hLast : (index + 1 == count) = true := by simpa using hCount
      simp [branchesText, branchFront, branchBack, headed, hLast, String.append_assoc]
  | cons next rest ih =>
      have hMore : (index + 1 == count) = false := by
        rw [List.length_cons] at hCount
        simp only [beq_eq_false_iff_ne]
        omega
      have hNext : conditionLine (index + 1) next.1 = "#elif " ++ next.1 := by simp [conditionLine]
      rw [branchesText, ih (index + 1) next (by rw [← hCount, List.length_cons]; omega), hNext]
      simp [branchFront, branchBack, headed, hMore, String.append_assoc]

/-- Branches without one for all other cases make up the whole chain; the last of them ends it. -/
theorem branchesText_eq_chainText (style : ChainStyle) (indent : Nat)
    (pieces : List (String × String)) :
    branchesText style pieces.length false indent 0 pieces =
      chainText indent style pieces none := by
  cases style with
  | separate => exact (branchesText_separate _ _ indent 0 pieces).1
  | preSeparate => exact (branchesText_separate _ _ indent 0 pieces).2
  | elseIf =>
      cases pieces with
      | nil => rfl
      | cons first rest =>
          rw [branchesText, branchesText_elseIf]
          simp [chainText, branchFront, branchBack, braced, String.append_assoc]
  | preElseIf =>
      cases pieces with
      | nil => rfl
      | cons first rest =>
          rw [branchesText_elif_closed _ _ _ _ _ (by rw [List.length_cons]; omega)]
          simp [chainText, conditionLine]

/-- Branches and one for all other cases make up the whole chain, if the style chains its
branches. -/
theorem branchesText_append_otherwise {style : ChainStyle} (hChains : style.chains = true)
    (count indent : Nat) (first : String × String) (rest : List (String × String))
    (written : String) :
    branchesText style count true indent 0 (first :: rest) ++
        (elseFront style indent ++ (written ++ branchBack style true indent)) =
      chainText indent style (first :: rest) (some written) := by
  cases style with
  | separate => cases hChains
  | preSeparate => cases hChains
  | elseIf =>
      rw [branchesText, branchesText_elseIf]
      simp [chainText, branchFront, branchBack, elseFront, braced, String.append_assoc]
  | preElseIf =>
      rw [branchesText, branchesText_elif]
      simp [chainText, branchFront, branchBack, elseFront, headed, conditionLine,
        String.append_assoc]

variable {items : List Item} {condition : Item → Action Failure State String}
  {body : Item → Action Failure State Unit} {otherwise : Option (Action Failure State Unit)}
  {style : ChainStyle}

/-- A chain has a piece of text for each of its items, so that numbers of branches are numbers of
items. -/
theorem RanAll.length {level : Nat} {s s' : State} {pieces : List (String × String)}
    (h : RanAll condition body level s items pieces s') : pieces.length = items.length := by
  induction h with
  | nil => rfl
  | cons _ _ _ ih => rw [List.length_cons, List.length_cons, ih]

/-- Branches that succeed have run all callbacks, and have appended the texts of all branches. -/
theorem branches_ok {count index : Nat} {hasElse : Bool} {s s' : State}
    (hConditions : ∀ item ∈ items, QuietCondition (condition item))
    (hBodies : ∀ item ∈ items, FillsBody (body item)) (hCalm : (emitter s).Calm)
    (h : branches style count hasElse condition body index items s = .ok () s') :
    ∃ pieces, RanAll condition body ((emitter s).indent + 1) s items pieces s' ∧
      (emitter s).Appended (emitter s')
        (branchesText style count hasElse (emitter s).indent index pieces) := by
  induction items generalizing index s with
  | nil =>
      cases h
      exact ⟨[], .nil _, hCalm, rfl, (String.append_empty).symm⟩
  | cons item rest ih =>
      rw [branches, bind_ok_iff] at h
      obtain ⟨text, tested, hCondition, h⟩ := h
      rw [bind_ok_iff] at h
      obtain ⟨⟨⟩, next, hScope, hRest⟩ := h
      obtain ⟨hSingle, hSame⟩ := hConditions item (.head rest) s text tested hCondition
      rw [← hSame] at hCalm ⊢
      obtain ⟨written, hRan, hWritten⟩ := (surroundsWith_entrance style index count hSingle
        hasElse).withScope (hBodies item (.head rest)) hCalm hScope
      obtain ⟨pieces, hRanRest, hRestText⟩ := ih
        (fun other hOther => hConditions other (.tail item hOther))
        (fun other hOther => hBodies other (.tail item hOther)) hWritten.calm hRest
      rw [hWritten.indent] at hRanRest hRestText
      exact ⟨(text, written) :: pieces, .cons hCondition hRan hRanRest, hWritten.trans hRestText⟩

/-- Branches fail only with a callback. -/
theorem branches_error {count index : Nat} {hasElse : Bool} {s s' : State} {failure : Failure}
    (h : branches style count hasElse condition body index items s = .error failure s') :
    ∃ item ∈ items, ∃ r r', condition item r = .error failure r' ∨
      body item r = .error failure r' := by
  induction items generalizing index s with
  | nil => cases h
  | cons item rest ih =>
      rw [branches, bind_error_iff] at h
      rcases h with hCondition | ⟨text, tested, -, h⟩
      · exact ⟨item, .head rest, s, s', .inl hCondition⟩
      · rw [bind_error_iff] at h
        rcases h with hScope | ⟨⟨⟩, next, -, hRest⟩
        · obtain ⟨r, left, hBody⟩ := withScope_error hScope
          exact ⟨item, .head rest, r, left, .inr hBody⟩
        · obtain ⟨other, hOther, hFails⟩ := ih hRest
          exact ⟨other, .tail item hOther, hFails⟩

/-- Either a style chains its branches and has a scope for all other cases, or it does neither and
refuses them. -/
theorem otherwise_of_chains (style : ChainStyle) :
    (style.chains = true ∧ ∃ scope, style.otherwise = .ok scope) ∨
      (style.chains = false ∧ style.otherwise = .error (.otherwiseWithoutChain style.word)) := by
  cases style with
  | separate => exact .inr ⟨rfl, rfl⟩
  | elseIf => exact .inl ⟨rfl, _, rfl⟩
  | preSeparate => exact .inr ⟨rfl, rfl⟩
  | preElseIf => exact .inl ⟨rfl, _, rfl⟩

/-- An else body where the branches form no chain is refused before anything is done. -/
theorem chain_refused (wrap : EmissionError → Failure) (hChains : style.chains = false)
    (elseBody : Action Failure State Unit) (s : State) :
    chain wrap style items condition body (some elseBody) s =
      .error (wrap (.otherwiseWithoutChain style.word)) s := by
  rcases otherwise_of_chains style with ⟨hTrue, -⟩ | ⟨-, hOtherwise⟩
  · rw [hChains] at hTrue
    cases hTrue
  · unfold chain
    dsimp only
    rw [hOtherwise]
    rfl

/-- What a chain that succeeds has done: the callbacks have run in their order, and the text is that
of the style. -/
theorem chain_ok (wrap : EmissionError → Failure)
    (hCallbacks : Callbacks items condition body otherwise) {s s' : State}
    (hCalm : (emitter s).Calm)
    (h : chain wrap style items condition body otherwise s = .ok () s') :
    ∃ pieces between written,
      RanAll condition body ((emitter s).indent + 1) s items pieces between ∧
      RanLast (if items.isEmpty then (emitter s).indent else (emitter s).indent + 1) between
        otherwise written s' ∧
      (emitter s).Appended (emitter s') (chainText (emitter s).indent style pieces written) := by
  cases otherwise with
  | none =>
      obtain ⟨pieces, hRan, hText⟩ :=
        branches_ok hCallbacks.conditions hCallbacks.bodies hCalm h
      rw [← hRan.length, branchesText_eq_chainText] at hText
      exact ⟨pieces, s', none, hRan, .none s', hText⟩
  | some elseBody =>
      rcases otherwise_of_chains style with ⟨hChains, scope, hOtherwise⟩ | ⟨hChains, -⟩
      · unfold chain at h
        dsimp only at h
        rw [hOtherwise] at h
        dsimp only at h
        rw [bind_ok_iff] at h
        obtain ⟨⟨⟩, between, hBranches, hLast⟩ := h
        obtain ⟨pieces, hRan, hText⟩ :=
          branches_ok hCallbacks.conditions hCallbacks.bodies hCalm hBranches
        have hElse : FillsBody elseBody := hCallbacks.otherwise elseBody rfl
        cases hRan with
        | nil =>
            obtain ⟨written, hWritten⟩ := hElse _ _ hLast hCalm
            have hBare : chainText (emitter s).indent style [] (some written) = written := by
              cases style with
              | separate => cases hChains
              | preSeparate => cases hChains
              | elseIf => rfl
              | preElseIf => rfl
            refine ⟨[], s, some written, .nil s, .some ?_, by rwa [hBare]⟩
            exact ⟨s, s', fun _ => rfl, hLast, rfl, hWritten.output, fun _ => rfl⟩
        | cons hCondition hBody hRest =>
            obtain ⟨written, hRanElse, hWritten⟩ :=
              (surroundsWith_otherwise hOtherwise).withScope hElse hText.calm hLast
            rw [hText.indent] at hRanElse hWritten
            have hAll := hText.trans hWritten
            rw [branchesText_append_otherwise hChains] at hAll
            exact ⟨_, between, some written, .cons hCondition hBody hRest, .some hRanElse, hAll⟩
      · rw [chain_refused wrap hChains] at h
        cases h

/-- A chain fails only with a callback, or because an else body does not go with its style. -/
theorem chain_error (wrap : EmissionError → Failure) {s s' : State} {failure : Failure}
    (h : chain wrap style items condition body otherwise s = .error failure s') :
    (∃ item ∈ items, ∃ r r', condition item r = .error failure r' ∨
        body item r = .error failure r') ∨
      (∃ elseBody ∈ otherwise, ∃ r r', elseBody r = .error failure r') ∨
      style.chains = false ∧ otherwise.isSome = true := by
  cases otherwise with
  | none => exact .inl (branches_error h)
  | some elseBody =>
      rcases otherwise_of_chains style with ⟨-, scope, hOtherwise⟩ | ⟨hChains, -⟩
      · unfold chain at h
        dsimp only at h
        rw [hOtherwise] at h
        dsimp only at h
        rw [bind_error_iff] at h
        rcases h with hBranches | ⟨⟨⟩, between, -, hLast⟩
        · exact .inl (branches_error hBranches)
        · refine .inr (.inl ⟨elseBody, rfl, ?_⟩)
          split at hLast
          · exact ⟨_, _, hLast⟩
          · exact withScope_error hLast
      · exact .inr (.inr ⟨hChains, rfl⟩)

/-- The text of chains. If no callback fails, a chain without an else body succeeds, and so does one
of a style that chains. Then the callbacks have run in the order of the items, and the text appended
is that of the style, with the texts that the bodies have appended one level deeper. An else body
with a style that does not chain is refused before anything is done. -/
theorem text_of_chain (wrap : EmissionError → Failure) (style : ChainStyle) (items : List Item)
    (condition : Item → Action Failure State String) (body : Item → Action Failure State Unit)
    (otherwise : Option (Action Failure State Unit)) (s : State) :
    (Callbacks items condition body otherwise → (emitter s).Calm →
      ∀ s', chain wrap style items condition body otherwise s = .ok () s' →
        ∃ pieces between written,
          RanAll condition body ((emitter s).indent + 1) s items pieces between ∧
          RanLast (if items.isEmpty then (emitter s).indent else (emitter s).indent + 1) between
            otherwise written s' ∧
          (emitter s).Appended (emitter s') (chainText (emitter s).indent style pieces written)) ∧
    (∀ failure s', chain wrap style items condition body otherwise s = .error failure s' →
      (∃ item ∈ items, ∃ r r', condition item r = .error failure r' ∨
          body item r = .error failure r') ∨
        (∃ elseBody ∈ otherwise, ∃ r r', elseBody r = .error failure r') ∨
        style.chains = false ∧ otherwise.isSome = true) ∧
    (style.chains = false → otherwise.isSome = true →
      chain wrap style items condition body otherwise s =
        .error (wrap (.otherwiseWithoutChain style.word)) s) := by
  refine ⟨fun hCallbacks hCalm s' => chain_ok wrap hCallbacks hCalm,
    fun failure s' => chain_error wrap, fun hChains hElse => ?_⟩
  obtain ⟨elseBody, rfl⟩ := Option.isSome_iff_exists.1 hElse
  exact chain_refused wrap hChains elseBody s

/-- Programs are bodies that append text and leave the level as it was. -/
theorem Program.fillsBody {Failure : Type} (wrap : EmissionError → Failure)
    (p : Program Failure Unit) : FillsBody (p.run wrap) := by
  intro e e' hRun hCalm
  have hEnd : e' = (e.after (p.layout wrap e)).withLedger (p.showing wrap e.ledger).ledger := by
    have hBehind := congrArg endState (p.showsEverywhere_run wrap e)
    rw [hRun, endState_behind] at hBehind
    exact hBehind
  have hInMacro : e.inMacro = false := hCalm.inMacro
  have hMode : (p.layout wrap e).ends e.inMacro = false := by
    rw [hInMacro]
    exact (p.layout wrap e).ends_of_not_continued
  obtain ⟨hAfter, hOutput⟩ := hCalm.place ((p.layout wrap e).lines e.inMacro e.indent) e.indent
  refine ⟨render ((p.layout wrap e).lines e.inMacro e.indent), ?_⟩
  rw [hEnd, Emitter.after, hMode]
  exact ⟨⟨hAfter.inMacro, hAfter.sections⟩, rfl, hOutput⟩

/-- A body of one line. -/
def oneLine : Action EmissionError Emitter Unit :=
  (Program.line "x" : Program EmissionError Unit).run id

/-- A chain of two branches, and an else body that is refused. -/
theorem text_of_chain_two :
    Callbacks ["A", "B"] (pure : String → Action EmissionError Emitter String) (fun _ => oneLine)
        none ∧
      ({} : Emitter).Calm ∧
      chain id .preElseIf ["A", "B"] pure (fun _ => oneLine) none ({} : Emitter) =
        .ok () { output := "#if A\n    x\n#elif B\n    x\n#endif\n" } ∧
      (∃ pieces between written,
        RanAll (pure : String → Action EmissionError Emitter String) (fun _ => oneLine) 1 {}
          ["A", "B"] pieces between ∧
        RanLast 1 between (none : Option (Action EmissionError Emitter Unit)) written
          { output := "#if A\n    x\n#elif B\n    x\n#endif\n" } ∧
        ({} : Emitter).Appended { output := "#if A\n    x\n#elif B\n    x\n#endif\n" }
          (chainText 0 .preElseIf pieces written)) ∧
      chain id .separate ["A", "B"] pure (fun _ => oneLine) (some oneLine) ({} : Emitter) =
        .error (.otherwiseWithoutChain "if") {} := by
  have hCallbacks : Callbacks ["A", "B"] (pure : String → Action EmissionError Emitter String)
      (fun _ => oneLine) none := by
    refine ⟨fun item hItem s text s' hRun => ?_, fun _ _ => Program.fillsBody id _, nofun⟩
    cases hRun
    refine ⟨?_, rfl⟩
    rcases List.mem_cons.1 hItem with rfl | hItem
    · decide
    · rw [List.mem_singleton.1 hItem]
      decide
  have hCalm : ({} : Emitter).Calm := ⟨rfl, nofun⟩
  have hEnd : endState (chain id .preElseIf ["A", "B"] pure (fun _ => oneLine) none
      ({} : Emitter)) = { output := "#if A\n    x\n#elif B\n    x\n#endif\n" } := by
    decide +kernel
  have hNone : thrown? (chain id .preElseIf ["A", "B"] pure (fun _ => oneLine) none
      ({} : Emitter)) = none := by
    decide +kernel
  have hRun := eq_ok_of_thrown? hNone
  rw [hEnd] at hRun
  exact ⟨hCallbacks, hCalm, hRun,
    (text_of_chain id .preElseIf ["A", "B"] pure (fun _ => oneLine) none {}).1 hCallbacks hCalm _
      hRun,
    (text_of_chain id .separate ["A", "B"] pure (fun _ => oneLine) (some oneLine) {}).2.2 rfl rfl⟩

end Metagen.Emission
