import Metagen.Emission.Chain
import Metagen.Emission.Definition
import Metagen.Emission.Enumeration
import Metagen.Emission.Table
import Metagen.Proofs.Steps

/-! What a directive asks of the emitter adds text, and never changes the file that the text is
for. -/

namespace Metagen.Emission

namespace Emitter

/-- The file that text is written for, and whether it starts with a receipt. -/
def file (e : Emitter) : Option Target × Bool := (e.target, e.receipt)

@[simp] theorem file_write (e : Emitter) (indent : Nat) (line : String) :
    (e.write indent line).file = e.file := rfl

/-- Changes one after the other keep the file if each of them does. -/
theorem file_foldl {Item : Type} {change : Emitter → Item → Emitter}
    (hChange : ∀ e item, (change e item).file = e.file) (items : List Item) (e : Emitter) :
    (items.foldl change e).file = e.file := by
  induction items generalizing e with
  | nil => rfl
  | cons item rest ih => rw [List.foldl_cons, ih, hChange]

@[simp] theorem file_flushSections (e : Emitter) : e.flushSections.file = e.file := by
  unfold flushSections
  rw [file_foldl]
  · rfl
  · exact fun _ _ => file_foldl (fun _ _ => file_write _ _ _) _ _

@[simp] theorem file_pushLine (e : Emitter) (line : String) : (e.pushLine line).file = e.file := by
  simp [pushLine]

@[simp] theorem file_line (e : Emitter) (text : String) : (e.line text).file = e.file :=
  file_foldl file_pushLine _ _

@[simp] theorem file_lines (e : Emitter) (texts : List String) : (e.lines texts).file = e.file :=
  file_foldl file_line _ _

@[simp] theorem file_blank (e : Emitter) : e.blank.file = e.file := file_pushLine _ _

@[simp] theorem file_lineIfAny (e : Emitter) (text : Option String) :
    (e.lineIfAny text).file = e.file := by
  cases text with
  | none => rfl
  | some text => exact file_line e text

@[simp] theorem file_enter (e : Emitter) (scope : Scope) : (e.enter scope).2.file = e.file := by
  unfold enter
  change (lineIfAny _ _).file = _
  rw [file_lineIfAny]
  split
  · exact file_lineIfAny _ _
  · exact file_lineIfAny _ _

/-- Leaving a scope keeps the file. -/
@[simp] theorem file_exit (e : Emitter) (side : ExitSide) : (e.exit side).file = e.file := by
  have hClosed : (lineIfAny { e with indent := e.indent - 1 } side.closing).file = e.file :=
    file_lineIfAny _ _
  unfold exit
  dsimp only
  split
  · rw [file_blank]
    split
    · exact hClosed
    · exact hClosed
  · split
    · exact hClosed
    · exact hClosed

/-- Defining a macro keeps the file. -/
@[simp] theorem file_defineMacro (e : Emitter) (name : String) (params : Option (List String))
    (expansion : String) (doWhile : Bool) :
    (e.defineMacro name params expansion doWhile).file = e.file := by
  unfold defineMacro
  dsimp only
  split
  · split
    · simp
    · simp
  · split
    · exact file_line _ _
    · exact file_line _ _

end Emitter

section

variable {Failure State Result Item : Type} [HoldsEmitter State]

open HoldsEmitter

def fileOf (s : State) : Option Target × Bool := (emitter s).file

@[simp] theorem fileOf_setEmitter (s : State) (e : Emitter) :
    fileOf (setEmitter s e) = e.file := congrArg Emitter.file (emitter_setEmitter s e)

/-- The action never changes the file. -/
abbrev KeepsFile (action : Action Failure State Result) : Prop := Fixes fileOf action

namespace KeepsFile

/-- A change of the emitter that keeps the file does so as a step of a script. -/
theorem changeEmitter {change : Emitter → Emitter} (h : ∀ e, (change e).file = e.file) :
    KeepsFile (changeEmitter change : Action Failure State Unit) := by
  intro s
  exact (fileOf_setEmitter s _).trans (h _)

/-- An action with a change behind it keeps the file if both do. -/
theorem andAfter {body : Action Failure State Result} (change : Emitter → Emitter)
    (hBody : KeepsFile body) (hChange : ∀ e, (change e).file = e.file) :
    KeepsFile (andAfter body change) := by
  intro s
  have hFirst := hBody s
  rw [Emission.andAfter]
  cases hRun : body s with
  | error failure t =>
      rw [hRun] at hFirst
      exact (fileOf_setEmitter t _).trans ((hChange _).trans hFirst)
  | ok a t =>
      rw [hRun] at hFirst
      exact (fileOf_setEmitter t _).trans ((hChange _).trans hFirst)

/-- An action inside of a scope keeps the file if its body does. -/
theorem withScope {body : Action Failure State Result} (scope : Scope) (hBody : KeepsFile body) :
    KeepsFile (withScope scope body) := by
  intro s
  rw [Emission.withScope]
  refine (hBody.andAfter _ (fun e => e.file_exit _) _).trans ?_
  exact (fileOf_setEmitter s _).trans (Emitter.file_enter _ scope)

/-- Whether an enumeration is refused or written, the file stays the same one. -/
theorem enumeration (d : Enumeration) : KeepsFile (Emit.enumeration d) := by
  unfold Emit.enumeration
  have hText : KeepsFile (do
      Emission.withScope (.headed d.header) (Emission.changeEmitter
        (·.lines (Text.justifiedLines (d.members.map d.memberCells))))
      Emission.changeEmitter (·.lineIfAny d.countLine) : Emit Unit) :=
    (withScope _ (changeEmitter fun e => e.file_lines _)).bind fun _ =>
      changeEmitter fun e => e.file_lineIfAny _
  split
  · exact (Fixes.throw _).bind fun _ => hText
  · exact hText

/-- Whether a table is refused or written, the file stays the same one. -/
theorem table (t : Table) : KeepsFile (Emit.table t) := by
  unfold Emit.table
  have hText : KeepsFile (Emission.withScope (.headed t.header) (Emission.changeEmitter
      (·.lines (Text.justifiedLines (t.rows.map Table.rowCells)))) : Emit Unit) :=
    withScope _ (changeEmitter fun e => e.file_lines _)
  split
  · exact (Fixes.throw _).bind fun _ => hText
  · exact hText

/-- Whether an overload is refused or registered, the file stays the same one. -/
theorem registerOverload (name : String) (group : OverloadGroup) :
    KeepsFile (Emit.registerOverload name group) := by
  unfold Emit.registerOverload
  refine Fixes.bindGet fun e => ?_
  -- Each way fails, or enters the overload and changes nothing else.
  cases e.owners.lookup name with
  | none =>
      cases e.overloads.lookup name with
      | none => rfl
      | some existing => exact Fixes.ite (Fixes.throw _) (Fixes.pure _) e
  | some owner =>
      cases e.overloads.lookup name with
      | none =>
          dsimp only
          split
          · rfl
          · rfl
      | some existing =>
          dsimp only
          refine Fixes.ite ((Fixes.throw _).bind fun _ => ?_) ?_ e
          · exact Fixes.ite (Fixes.throw _) (Fixes.pure _)
          · exact Fixes.ite (Fixes.throw _) (Fixes.pure _)

/-- Whether a definition is refused or written, the file stays the same one. -/
theorem define (d : Definition) : KeepsFile (Emit.define d) := by
  unfold Emit.define
  apply Fixes.ite
  · exact changeEmitter fun e => e.file_defineMacro _ _ _ _
  · split
    · have hText : ∀ params, KeepsFile (do
          let group : OverloadGroup := ⟨params, d.overload.map (·.1)⟩
          Emit.registerOverload d.name group
          let rest := if group.rest.isEmpty then none else some group.rest
          let name := variantName d.name (d.overload.map (·.2))
          Emission.changeEmitter (·.defineMacro name rest d.expansion d.doWhile) : Emit Unit) :=
        fun params => (registerOverload _ _).bind fun _ =>
          changeEmitter fun e => e.file_defineMacro _ _ _ _
      dsimp only
      split
      · exact (Fixes.throw _).bind fun _ => hText _
      · exact hText _
    · exact Fixes.throw _

end KeepsFile

end

end Metagen.Emission
