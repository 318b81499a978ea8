import Metagen.Emission.Chain
import Metagen.Emission.Definition
import Metagen.Emission.Enumeration
import Metagen.Emission.Table
import Metagen.Proofs.Emission.Layout
import Metagen.Proofs.Steps

/-! Programs that emit. What a program writes is a layout, and whether it fails and how is decided
by the ledger of overloaded macros alone, whatever the emitter has written before. -/

namespace Metagen.Emission

open Text Emitter

/-- What decides whether a macro may be overloaded. -/
structure Ledger where
  owner : String
  owners : List (String × String)
  overloads : List (String × OverloadGroup)

namespace Emitter

def ledger (e : Emitter) : Ledger := ⟨e.owner, e.owners, e.overloads⟩

def withLedger (e : Emitter) (l : Ledger) : Emitter :=
  { e with owner := l.owner, owners := l.owners, overloads := l.overloads }

theorem ledger_place (e : Emitter) (ls : List Line) (m : Bool) (i : Nat) :
    (e.place ls m i).ledger = e.ledger := by
  unfold place
  cases ls <;> rfl

/-- Where lines are placed and what they are does not depend on who overloads what. -/
theorem place_withLedger (e : Emitter) (l : Ledger) (ls : List Line) (m : Bool) (i : Nat) :
    (e.withLedger l).place ls m i = (e.place ls m i).withLedger l := by
  unfold place
  cases ls <;> rfl

theorem ledger_after (e : Emitter) (layout : Layout) : (e.after layout).ledger = e.ledger :=
  e.ledger_place _ _ _

theorem after_withLedger (e : Emitter) (l : Ledger) (layout : Layout) :
    (e.withLedger l).after layout = (e.after layout).withLedger l :=
  e.place_withLedger l _ _ _

theorem after_withLedger_ledger (e : Emitter) (layout : Layout) :
    (e.after layout).withLedger e.ledger = e.after layout := by
  rw [← e.ledger_after layout]
  rfl

/-- Leaving a scope does not depend on who overloads what. -/
theorem exit_withLedger (e : Emitter) (l : Ledger) (side : ExitSide) (indent : Nat)
    (h : e.indent = side.level indent + 1) :
    (e.withLedger l).exit side = (e.exit side).withLedger l := by
  rw [exit_eq e side indent h, ← place_withLedger]
  exact exit_eq (e.withLedger l) side indent h

/-- A scope is left as it was entered, whatever has become of the ledger. -/
theorem exit_after_withLedger (e : Emitter) (scope : Scope) (inner : Layout) (l : Ledger) :
    (((e.enter scope).2.after inner).withLedger l).exit (e.enter scope).1 =
      (e.after (.scope scope inner)).withLedger l := by
  have hIndent : ((e.enter scope).2.after inner).indent =
      (e.enter scope).1.level e.indent + 1 := by
    rw [enter_eq]
    rfl
  rw [exit_withLedger _ l _ e.indent hIndent, exit_after]

end Emitter

/-- What an action comes to: what it writes, its result, and the ledger it leaves. -/
structure Shown (Failure Result : Type) where
  layout : Layout
  result : Except Failure Result
  ledger : Ledger

/-- The result of an action that an emitter has run. -/
def Shown.behind {Failure Result : Type} (shown : Shown Failure Result) (e : Emitter) :
    EStateM.Result Failure Emitter Result :=
  match shown.result with
  | .ok result => .ok result ((e.after shown.layout).withLedger shown.ledger)
  | .error failure => .error failure ((e.after shown.layout).withLedger shown.ledger)

/-- What an action comes to, by the ledger. -/
abbrev Showing (Failure Result : Type) := Ledger → Shown Failure Result

namespace Showing

variable {Failure Result Next Item : Type}

def done (result : Result) : Showing Failure Result := fun l => ⟨.plain [], .ok result, l⟩

def fail (failure : Failure) : Showing Failure Result := fun l => ⟨.plain [], .error failure, l⟩

def write (layout : Layout) : Showing Failure Unit := fun l => ⟨layout, .ok (), l⟩

/-- One action behind the other, unless the first one fails. -/
def andThen (first : Showing Failure Result) (second : Result → Showing Failure Next) :
    Showing Failure Next := fun l =>
  match (first l).result with
  | .ok a =>
    ⟨.both (first l).layout (second a (first l).ledger).layout, (second a (first l).ledger).result,
      (second a (first l).ledger).ledger⟩
  | .error failure => ⟨(first l).layout, .error failure, (first l).ledger⟩

/-- An action whose layout is put into something. -/
def within (wrapper : Layout → Layout) (body : Showing Failure Result) : Showing Failure Result :=
  fun l => { body l with layout := wrapper (body l).layout }

def wrapped (wrap : EmissionError → Failure) (action : Showing EmissionError Result) :
    Showing Failure Result := fun l =>
  { action l with result := (action l).result.mapError wrap }

end Showing

/-- The action writes the same and has the same result wherever it runs, if the ledger is the
same. -/
def ShowsEverywhere {Failure Result : Type} (action : Action Failure Emitter Result)
    (showing : Showing Failure Result) : Prop :=
  ∀ e, action e = (showing e.ledger).behind e

namespace ShowsEverywhere

variable {Failure Result Next Item : Type}

theorem pure (result : Result) :
    ShowsEverywhere (pure result : Action Failure Emitter Result) (.done result) := fun _ => rfl

theorem throw (failure : Failure) :
    ShowsEverywhere (throw failure : Action Failure Emitter Result) (.fail failure) := fun _ => rfl

/-- A change that writes a layout is shown as writing that layout. -/
theorem change {change : Emitter → Emitter} {layout : Layout}
    (h : ∀ e, change e = e.after layout) :
    ShowsEverywhere (changeEmitter change : Action Failure Emitter Unit) (.write layout) := by
  intro e
  change EStateM.Result.ok () (change e) = EStateM.Result.ok () _
  rw [h, ← e.ledger_after layout]
  rfl

/-- What is behind a layout and behind something shown there. -/
theorem behind_after {Failure Result : Type} (e : Emitter) (layout : Layout) (l : Ledger)
    (shown : Shown Failure Result) :
    shown.behind ((e.after layout).withLedger l) =
      Shown.behind { shown with layout := .both layout shown.layout } e := by
  unfold Shown.behind
  rw [after_withLedger, after_after]
  rfl

/-- Two actions that are shown everywhere are shown one behind the other. -/
theorem bind {first : Action Failure Emitter Result} {second : Result → Action Failure Emitter Next}
    {showFirst : Showing Failure Result} {showSecond : Result → Showing Failure Next}
    (hFirst : ShowsEverywhere first showFirst)
    (hSecond : ∀ a, ShowsEverywhere (second a) (showSecond a)) :
    ShowsEverywhere (first >>= second) (showFirst.andThen showSecond) := by
  intro e
  change EStateM.bind first second e = _
  unfold EStateM.bind
  rw [hFirst e, Shown.behind, Showing.andThen]
  cases (showFirst e.ledger).result with
  | error failure => rfl
  | ok a =>
      dsimp only
      rw [hSecond a, behind_after]
      rfl

/-- However a body ends, what is done behind it puts its layout into something. -/
theorem andAfter {body : Action Failure Emitter Result} {showing : Showing Failure Result}
    (h : ShowsEverywhere body showing) {change : Emitter → Emitter} {e opened : Emitter}
    {wrapper : Layout → Layout} (hLedger : opened.ledger = e.ledger)
    (hChange : ∀ inner l, change ((opened.after inner).withLedger l) =
      (e.after (wrapper inner)).withLedger l) :
    andAfter body change opened = (showing.within wrapper e.ledger).behind e := by
  unfold Emission.andAfter
  rw [h opened, hLedger]
  unfold Shown.behind Showing.within
  cases hResult : (showing e.ledger).result with
  | error failure => exact congrArg (EStateM.Result.error failure) (hChange _ _)
  | ok result => exact congrArg (EStateM.Result.ok result) (hChange _ _)

/-- An action in a scope is shown as what it shows, in the layout of the scope. -/
theorem withScope {body : Action Failure Emitter Result} {showing : Showing Failure Result}
    (scope : Scope) (h : ShowsEverywhere body showing) :
    ShowsEverywhere (withScope scope body) (showing.within (.scope scope)) := by
  intro e
  have hLedger : (e.enter scope).2.ledger = e.ledger := by
    rw [enter_eq]
    exact e.ledger_place _ _ _
  change Emission.andAfter body (·.exit (e.enter scope).1) (e.enter scope).2 = _
  exact h.andAfter hLedger (e.exit_after_withLedger scope)

/-- An action in a section is shown as what it shows, with the title of the section in front. -/
theorem withSection {body : Action Failure Emitter Result} {showing : Showing Failure Result}
    (text : String) (h : ShowsEverywhere body showing) :
    ShowsEverywhere (withSection text body) (showing.within (.titled text)) := by
  intro e
  change Emission.andAfter body (·.endSection) (e.beginSection text) = _
  exact h.andAfter rfl fun inner l => congrArg (·.withLedger l) (e.endSection_after text inner)

/-- A request that is shown everywhere is shown in a program too, with its failures wrapped. -/
theorem liftEmit {action : Emit Result} {showing : Showing EmissionError Result}
    (wrap : EmissionError → Failure) (h : ShowsEverywhere action showing) :
    ShowsEverywhere (liftEmit wrap action) (showing.wrapped wrap) := by
  intro e
  unfold Emission.liftEmit
  rw [show action (HoldsEmitter.emitter e) = _ from h e]
  unfold Shown.behind Showing.wrapped
  dsimp only
  cases (showing e.ledger).result with
  | error failure => rfl
  | ok result => rfl

end ShowsEverywhere

def definitionLayout (name : String) (params : Option (List String)) (expansion : String)
    (doWhile : Bool) : Layout :=
  let signature := params.elim name fun params => name ++ "(" ++ ", ".intercalate params ++ ")"
  let expansion := dedent { literal := true } expansion
  if expansion.toList.contains '\n' then
    .scope (.headed ("#define " ++ signature))
      (if doWhile then .scope
        { header := some "do", opening := some "\x7b", closing := some "\x7d\nwhile (false)" }
        (.fragment expansion)
      else .fragment expansion)
  else if doWhile then
    .fragment ("#define " ++ signature ++ " do \x7b " ++ expansion ++ " \x7d while (false)")
  else .fragment ("#define " ++ signature ++ " " ++ expansion)

/-- A macro without overloads is written as its definition is laid out. -/
theorem Emitter.defineMacro_eq_after (e : Emitter) (name : String) (params : Option (List String))
    (expansion : String) (doWhile : Bool) : e.defineMacro name params expansion doWhile =
      e.after (definitionLayout name params expansion doWhile) := by
  cases params
  all_goals
    unfold defineMacro definitionLayout
    dsimp only [Option.elim]
    split
    · rw [← exit_after]
      split
      · rw [← exit_after, ← line_eq_after]
      · rw [← line_eq_after]
    · split
      · exact e.line_eq_after _
      · exact e.line_eq_after _

namespace Showing

def register (name : String) (group : OverloadGroup) : Showing EmissionError Unit := fun l =>
  match Emit.registerOverload name group (({} : Emitter).withLedger l) with
  | .ok _ e => ⟨.plain [], .ok (), e.ledger⟩
  | .error failure e => ⟨.plain [], .error failure, e.ledger⟩

/-- A definition, unless it is an overload that is refused. -/
def define (d : Definition) : Showing EmissionError Unit :=
  if d.overload.isEmpty then write (definitionLayout d.name d.params d.expansion d.doWhile)
  else match d.params with
    | none => fail (.overloadWithoutParams d.name)
    | some params => match d.overload.findSome? (overloadFault? d.name params) with
      | some fault => fail fault
      | none =>
        let group : OverloadGroup := ⟨params, d.overload.map (·.1)⟩
        (register d.name group).andThen fun _ => write (definitionLayout
          (variantName d.name (d.overload.map (·.2)))
          (if group.rest.isEmpty then none else some group.rest) d.expansion d.doWhile)

def enumeration (d : Enumeration) : Showing EmissionError Unit :=
  match d.fault? with
  | some fault => fail fault
  | none => (within (.scope (.headed d.header)) (write (.plain
      ((justifiedLines (d.members.map d.memberCells)).flatMap fragmentLines)))).andThen fun _ =>
        write (.optional d.countLine)

def table (t : Table) : Showing EmissionError Unit :=
  match t.fault? with
  | some fault => fail fault
  | none => within (.scope (.headed t.header)) (write (.plain
      ((justifiedLines (t.rows.map Table.rowCells)).flatMap fragmentLines)))

end Showing

namespace ShowsEverywhere

/-- Registering an overload writes nothing, and its outcome depends on the ledger alone. -/
theorem register (name : String) (group : OverloadGroup) :
    ShowsEverywhere (Emit.registerOverload name group) (.register name group) := by
  intro e
  have hGet (next : Emitter → Emit Unit) (s : Emitter) : (get >>= next) s = next s s := rfl
  have hOwners : (({} : Emitter).withLedger e.ledger).owners = e.owners := rfl
  have hOwner : (({} : Emitter).withLedger e.ledger).owner = e.owner := rfl
  have hOverloads : (({} : Emitter).withLedger e.ledger).overloads = e.overloads := rfl
  unfold Shown.behind Showing.register Emit.registerOverload
  -- Both runs look at the same ledger, so that they go the same way.
  rw [hGet, hGet, hOwners, hOwner, hOverloads]
  cases e.owners.lookup name with
  | none =>
      cases e.overloads.lookup name with
      | none => rfl
      | some existing =>
          dsimp only
          split
          · rfl
          · rfl
  | some owner =>
      dsimp only
      cases e.overloads.lookup name with
      | none =>
          dsimp only
          split
          · rfl
          · rfl
      | some existing =>
          dsimp only
          split
          · rfl
          · split
            · rfl
            · rfl

theorem definition (name : String) (params : Option (List String)) (expansion : String)
    (doWhile : Bool) :
    ShowsEverywhere (changeEmitter (·.defineMacro name params expansion doWhile) : Emit Unit)
      (.write (definitionLayout name params expansion doWhile)) :=
  change fun e => e.defineMacro_eq_after name params expansion doWhile

/-- An overload is entered into the ledger before its definition is written. -/
theorem overload (name variant : String) (group : OverloadGroup) (params : Option (List String))
    (expansion : String) (doWhile : Bool) :
    ShowsEverywhere (Emit.registerOverload name group >>= fun _ =>
        changeEmitter (·.defineMacro variant params expansion doWhile))
      ((Showing.register name group).andThen fun _ =>
        .write (definitionLayout variant params expansion doWhile)) :=
  (register name group).bind fun _ => definition variant params expansion doWhile

/-- A definition is shown as the registering of its overload and the layout of what it defines. -/
theorem define (d : Definition) : ShowsEverywhere (Emit.define d) (.define d) := by
  unfold Emit.define Showing.define
  split
  · exact definition _ _ _ _
  · cases d.params with
    | none => exact throw _
    | some params =>
        dsimp only
        cases d.overload.findSome? (overloadFault? d.name params) with
        | none => exact overload _ _ _ _ _ _
        | some fault => exact (throw fault).bind fun _ => overload _ _ _ _ _ _

/-- Lines in a scope. -/
theorem block (scope : Scope) (texts : List String) :
    ShowsEverywhere (Emission.withScope scope (changeEmitter (·.lines texts)) : Emit Unit)
      (.within (.scope scope) (.write (.plain (texts.flatMap fragmentLines)))) :=
  withScope scope (change fun e => e.lines_eq_after texts)

/-- An enumeration is shown as its layout, or as the fault it is refused for. -/
theorem enumeration (d : Enumeration) : ShowsEverywhere (Emit.enumeration d) (.enumeration d) := by
  unfold Emit.enumeration Showing.enumeration
  have hText : ShowsEverywhere (do
      Emission.withScope (.headed d.header) (changeEmitter
        (·.lines (justifiedLines (d.members.map d.memberCells))))
      changeEmitter (·.lineIfAny d.countLine) : Emit Unit) _ :=
    (block _ _).bind fun _ => change fun e => e.lineIfAny_eq_after _
  cases d.fault? with
  | none => exact hText
  | some fault => exact (throw fault).bind fun _ => hText

/-- A table is shown as its layout, or as the fault it is refused for. -/
theorem table (t : Table) : ShowsEverywhere (Emit.table t) (.table t) := by
  unfold Emit.table Showing.table
  cases t.fault? with
  | none => exact block _ _
  | some fault => exact (throw fault).bind fun _ => block _ _

end ShowsEverywhere

variable {Failure Result Item : Type}

namespace Showing

def branches (style : ChainStyle) (count : Nat) (hasElse : Bool)
    (condition : Item → Showing Failure String) (body : Item → Showing Failure Unit) :
    Nat → List Item → Showing Failure Unit
  | _, [] => done ()
  | index, item :: rest =>
    (condition item).andThen fun text =>
      ((body item).within (.scope (style.entrance index count text hasElse))).andThen fun _ =>
        branches style count hasElse condition body (index + 1) rest

/-- The branches, and what comes behind them. -/
def chain (wrap : EmissionError → Failure) (style : ChainStyle) (items : List Item)
    (condition : Item → Showing Failure String) (body : Item → Showing Failure Unit) :
    Option (Showing Failure Unit) → Showing Failure Unit
  | none => branches style items.length false condition body 0 items
  | some elseBody =>
    match style.otherwise with
    | .error error => fail (wrap error)
    | .ok scope =>
      (branches style items.length true condition body 0 items).andThen fun _ =>
        if items.isEmpty then elseBody else elseBody.within (.scope scope)

end Showing

namespace ShowsEverywhere

variable {condition : Item → Action Failure Emitter String}
  {body : Item → Action Failure Emitter Unit} {showCondition : Item → Showing Failure String}
  {showBody : Item → Showing Failure Unit}

/-- Branches are shown if conditions and bodies are; the proof goes branch by branch. -/
theorem branches (style : ChainStyle) (count : Nat) (hasElse : Bool)
    (hCondition : ∀ item, ShowsEverywhere (condition item) (showCondition item))
    (hBody : ∀ item, ShowsEverywhere (body item) (showBody item)) (index : Nat)
    (items : List Item) :
    ShowsEverywhere (Emission.branches style count hasElse condition body index items)
      (.branches style count hasElse showCondition showBody index items) := by
  induction items generalizing index with
  | nil => exact pure ()
  | cons item rest ih =>
      exact (hCondition item).bind fun text =>
        (withScope (style.entrance index count text hasElse) (hBody item)).bind fun _ =>
          ih (index + 1)

/-- A chain is shown if conditions and bodies are, and what it does otherwise, if it does
anything. -/
theorem chain (wrap : EmissionError → Failure) (style : ChainStyle) (items : List Item)
    (hCondition : ∀ item, ShowsEverywhere (condition item) (showCondition item))
    (hBody : ∀ item, ShowsEverywhere (body item) (showBody item)) :
    ShowsEverywhere (Emission.chain wrap style items condition body none)
      (.chain wrap style items showCondition showBody none) :=
  branches style items.length false hCondition hBody 0 items

/-- A chain with a branch for all other cases is shown if all its parts are. -/
theorem chainElse (wrap : EmissionError → Failure) (style : ChainStyle) (items : List Item)
    {elseBody : Action Failure Emitter Unit} {showElse : Showing Failure Unit}
    (hCondition : ∀ item, ShowsEverywhere (condition item) (showCondition item))
    (hBody : ∀ item, ShowsEverywhere (body item) (showBody item))
    (hElse : ShowsEverywhere elseBody showElse) :
    ShowsEverywhere (Emission.chain wrap style items condition body (some elseBody))
      (.chain wrap style items showCondition showBody (some showElse)) := by
  unfold Emission.chain Showing.chain
  dsimp only
  cases style.otherwise with
  | error error => exact throw _
  | ok scope =>
      have hLast : ∀ _ : Unit, ShowsEverywhere
          (if items.isEmpty then elseBody else Emission.withScope scope elseBody)
          (if items.isEmpty then showElse else showElse.within (.scope scope)) := by
        intro _
        cases items.isEmpty with
        | true => exact hElse
        | false => exact withScope scope hElse
      exact (branches style items.length true hCondition hBody 0 items).bind hLast

end ShowsEverywhere

/-- What callbacks of scopes, sections and chains may do: any operations of an emitter, one behind
the other and one within the other, with failures at any point. -/
inductive Program (Failure : Type) : Type → Type 1 where
  | done {Result : Type} (result : Result) : Program Failure Result
  | fail {Result : Type} (failure : Failure) : Program Failure Result
  | andThen {Result Next : Type} (first : Program Failure Result)
      (second : Result → Program Failure Next) : Program Failure Next
  | line (text : String) : Program Failure Unit
  | blank : Program Failure Unit
  | inScope {Result : Type} (scope : Scope) (body : Program Failure Result) :
      Program Failure Result
  | inSection {Result : Type} (text : String) (body : Program Failure Result) :
      Program Failure Result
  | define (d : Definition) : Program Failure Unit
  | enumeration (d : Enumeration) : Program Failure Unit
  | table (t : Table) : Program Failure Unit
  | chain {Item : Type} (style : ChainStyle) (items : List Item)
      (condition : Item → Program Failure String) (body : Item → Program Failure Unit) :
      Program Failure Unit
  | chainElse {Item : Type} (style : ChainStyle) (items : List Item)
      (condition : Item → Program Failure String) (body : Item → Program Failure Unit)
      (elseBody : Program Failure Unit) : Program Failure Unit

namespace Program

variable (wrap : EmissionError → Failure)

/-- The action of a program. Refused requests fail as `wrap` says. -/
def run {Result : Type} : Program Failure Result → Action Failure Emitter Result
  | done result => pure result
  | fail failure => throw failure
  | andThen first second => first.run >>= fun a => (second a).run
  | line text => changeEmitter (·.line text)
  | blank => changeEmitter (·.blank)
  | inScope scope body => withScope scope body.run
  | inSection text body => withSection text body.run
  | define d => liftEmit wrap (Emit.define d)
  | enumeration d => liftEmit wrap (Emit.enumeration d)
  | table t => liftEmit wrap (Emit.table t)
  | chain style items condition body =>
    Emission.chain wrap style items (fun item => (condition item).run) (fun item => (body item).run)
      none
  | chainElse style items condition body elseBody =>
    Emission.chain wrap style items (fun item => (condition item).run) (fun item => (body item).run)
      (some elseBody.run)

/-- What a program comes to. Scopes that are entered are in its layout whether their bodies fail or
not. -/
def showing {Result : Type} : Program Failure Result → Showing Failure Result
  | done result => .done result
  | fail failure => .fail failure
  | andThen first second => first.showing.andThen fun a => (second a).showing
  | line text => .write (.fragment text)
  | blank => .write (.plain [""])
  | inScope scope body => body.showing.within (.scope scope)
  | inSection text body => body.showing.within (.titled text)
  | define d => (Showing.define d).wrapped wrap
  | enumeration d => (Showing.enumeration d).wrapped wrap
  | table t => (Showing.table t).wrapped wrap
  | chain style items condition body =>
    .chain wrap style items (fun item => (condition item).showing)
      (fun item => (body item).showing) none
  | chainElse style items condition body elseBody =>
    .chain wrap style items (fun item => (condition item).showing)
      (fun item => (body item).showing) (some elseBody.showing)

/-- A program writes its layout and has its result wherever it runs. -/
theorem showsEverywhere_run (p : Program Failure Result) :
    ShowsEverywhere (p.run wrap) (p.showing wrap) := by
  induction p with
  | done result => exact .pure result
  | fail failure => exact .throw failure
  | andThen first second ihFirst ihSecond => exact ihFirst.bind ihSecond
  | line text => exact .change fun e => e.line_eq_after text
  | blank => exact .change Emitter.blank_eq_after
  | inScope scope body ih => exact ih.withScope scope
  | inSection text body ih => exact ih.withSection text
  | define d => exact (ShowsEverywhere.define d).liftEmit wrap
  | enumeration d => exact (ShowsEverywhere.enumeration d).liftEmit wrap
  | table t => exact (ShowsEverywhere.table t).liftEmit wrap
  | chain style items condition body ihCondition ihBody =>
      exact .chain wrap style items ihCondition ihBody
  | chainElse style items condition body elseBody ihCondition ihBody ihElse =>
      exact .chainElse wrap style items ihCondition ihBody ihElse

end Program

end Metagen.Emission
