import Metagen.Eval.Run
import Metagen.Proofs.Eval.Rules

/-! The methods of the generator, and with them whole scripts, keep what is guarded. -/

namespace Metagen

open Eval Emission

namespace Guard

variable {g : Guard} {s : Store} {ev : Level}

namespace SafeSteps

/-- A builtin step within a method. -/
theorem ofNative {α : Type} {action : Native α} {good : Store → α → Prop}
    (h : g.SafeSteps s action good) : g.SafeSteps s (Method.ofNative action) good := by
  intro args hArgs
  exact (h args hArgs).onStore

/-- A step of the script within a method. -/
theorem lift {α : Type} {action : EvalM α} {good : Store → α → Prop} (h : g.Safe s action good) :
    g.SafeSteps s (StateT.lift action : Method α) good := by
  intro args hArgs
  refine h.bind_pure fun t a hGrown ha => ?_
  exact ⟨ha, hArgs.mono hGrown⟩

theorem request (emit : Emit Unit) : g.Safe s (Generator.request emit) Plain := Safe.liftEmit _ _

theorem write (change : Emitter → Emitter) : g.Safe s (Generator.write change) Plain :=
  Safe.changeEmitter _

theorem refuse {α : Type} {good : Store → α → Prop} (error : EmissionError) :
    g.SafeSteps s (Generator.refuse error : Native α) good := fail _

theorem textsOf (what : String) (v : Value) : g.SafeSteps s (Generator.textsOf what v) Plain := by
  cases v with
  | text t => exact .pure fun _ _ => trivial
  | list cell =>
      exact (read_plain _).bindPlain fun items t _ => mapM_plain fun v _ u _ => text what v
  | _ => exact fail _

theorem enumMember (v : Value) : g.SafeSteps s (Generator.enumMember v) Plain := by
  cases v with
  | text t => exact .pure fun _ _ => trivial
  | list cell =>
      refine (read_plain _).bindPlain fun items t _ => ?_
      split
      · exact (cText _).bindPlain fun _ _ _ => .pure fun _ _ => trivial
      · exact fail _
  | _ => exact fail _

theorem countStyle (v : Option Value) : g.SafeSteps s (Generator.countStyle v) Plain := by
  unfold Generator.countStyle
  split
  · exact .pure fun _ _ => trivial
  · exact .pure fun _ _ => trivial
  · exact .pure fun _ _ => trivial
  · exact .pure fun _ _ => trivial
  · refine (text _ _).bindPlain fun word t _ => ?_
    split
    · exact .pure fun _ _ => trivial
    · exact refuse _

theorem expansionOf (v : Option Value) : g.SafeSteps s (Generator.expansionOf v) Plain := by
  unfold Generator.expansionOf
  split
  · exact .pure fun _ _ => trivial
  · exact cText _
  · exact fail _

theorem overloadOf (v : Option Value) : g.SafeSteps s (Generator.overloadOf v) Plain := by
  unfold Generator.overloadOf
  split
  · exact .pure fun _ _ => trivial
  · exact .pure fun _ _ => trivial
  · refine (read_plain _).bindPlain fun record t _ => mapM_plain fun entry _ u _ => ?_
    exact (cText _).bindPlain fun _ _ _ => .pure fun _ _ => trivial
  · exact fail _

theorem tableMembers (table : String) (v : Value) :
    g.SafeSteps s (Generator.tableMembers table v) Plain := by
  cases v with
  | record cell =>
      refine (read_plain _).bindPlain fun record t _ => mapM_plain fun entry _ u _ => ?_
      exact (cText _).bindPlain fun _ _ _ => .pure fun _ _ => trivial
  | list cell =>
      refine (read_plain _).bindPlain fun items t _ => ?_
      split
      · exact (cText _).bindPlain fun _ _ _ => .pure fun _ _ => trivial
      · exact (cText _).bindPlain fun _ _ _ => .pure fun _ _ => trivial
      · exact refuse _
  | _ => exact refuse _

/-- A row of a table is only read. -/
theorem tableRow (table : String) (row : Value) :
    g.SafeSteps s (Generator.tableRow table row) Plain := by
  unfold Generator.tableRow
  refine bindPlain ?_ fun cells t _ => bindPlain ?_ fun parts u _ => ?_
  · split
    · exact .pure fun _ _ => trivial
    · exact (read_plain _).bindPlain fun _ _ _ => .pure fun _ _ => trivial
    · exact refuse _
  · split
    · exact .pure fun _ _ => trivial
    · exact .pure fun _ _ => trivial
    · exact .pure fun _ _ => trivial
    · exact (cText _).bindPlain fun _ _ _ => .pure fun _ _ => trivial
  · refine (mapM_plain fun cell _ x _ => tableMembers table cell).bindPlain fun _ _ _ => ?_
    exact .pure fun _ _ => trivial

theorem chainStyle (v : Option Value) : g.SafeSteps s (Generator.chainStyle v) Plain := by
  cases v with
  | none => exact .pure fun _ _ => trivial
  | some v =>
      refine (text _ v).bindPlain fun word t _ => ?_
      split
      · exact .pure fun _ _ => trivial
      · exact refuse _

/-- Writing fragments only reads the values they are given as. -/
theorem line : g.SafeSteps s Generator.line Plain := by
  refine (ofNative rest).bind fun values t _ _ => ?_
  split
  · exact lift (write _)
  · refine (lift (Safe.readStore fun _ _ _ => trivial)).bindPlain fun fragments u _ => ?_
    exact lift (write _)

/-- A scope is safe if the function that is its body is. -/
theorem enter (h : g.SafeLevel ev) : g.SafeSteps s (Generator.enter ev) Plain := by
  unfold Generator.enter
  refine (ofNative (optional _)).bind fun header t _ _ => ?_
  refine (ofNative (optionalText _ header)).bindPlain fun header t _ => ?_
  refine (ofNative (required _)).bind fun body t _ hBody => ?_
  refine (ofNative (optionalNamed _)).bind fun opening u hBegin _ => ?_
  refine (ofNative (optionalText _ opening)).bindPlain fun opening v hNext => ?_
  refine (ofNative (optionalNamed _)).bind fun closing w hLater _ => ?_
  refine (ofNative (optionalText _ closing)).bindPlain fun closing x hLast => ?_
  have hGrown := hBegin.trans (hNext.trans (hLater.trans hLast))
  refine bindPlain ?_ fun indented y hEnd => ?_
  · refine (ofNative (optionalNamed _)).bind fun indented y _ _ => ?_
    split
    · exact (lift (Safe.isTrue _)).bindPlain fun _ _ _ => .pure fun _ _ => trivial
    · exact .pure fun _ _ => trivial
  · apply lift
    apply Safe.withScope
    exact (h.callWith (hBody.mono (hGrown.trans hEnd)) freeValues_nil).discard

/-- The members of an enumeration, given or collected by a function. -/
theorem members (h : g.SafeLevel ev) (given : Value) : g.FreeValue s given →
    g.SafeSteps s (match given with
      | .function _ | .builtin _ => do
        let collected ← makeCell (·.newList #[])
        Functor.discard (ev.callWith given [collected])
        return collected
      | v => return v : Method Value) g.FreeValue := by
  intro hGiven
  have hCollected : g.SafeSteps s (do
      let collected ← makeCell (·.newList #[])
      Functor.discard (ev.callWith given [collected])
      return collected : Method Value) g.FreeValue := by
    have hNew : g.Safe s (makeCell (·.newList #[])) g.FreeValue :=
      Safe.makeCell fun u _ hKeeps => hKeeps.newList freeValues_nil
    refine (lift hNew).bind fun collected u hGrown hFree => ?_
    have hCall := h.callWith (hGiven.mono hGrown) (freeValues_cons.2 ⟨hFree, freeValues_nil⟩)
    refine (lift hCall).discard.bindPlain fun _ v hNext => ?_
    exact .pure fun _ hLater => hFree.mono (hNext.trans hLater)
  cases given with
  | function cell => exact hCollected
  | builtin b => exact hCollected
  | _ => exact .pure fun _ hGrown => hGiven.mono hGrown

/-- An enumeration is safe, also if its members are collected in a new list by a function. -/
theorem enums (h : g.SafeLevel ev) : g.SafeSteps s (Generator.enums ev) Plain := by
  unfold Generator.enums
  refine (ofNative (required _)).bind fun name t _ _ => ?_
  refine (ofNative (text _ name)).bindPlain fun name t _ => ?_
  refine (ofNative (optional _)).bind fun underlying t _ _ => ?_
  refine (ofNative (optionalText _ underlying)).bindPlain fun underlying t _ => ?_
  refine (ofNative (required _)).bind fun given t _ hGiven => ?_
  refine (members h given hGiven).bind fun members u hGrown hMembers => ?_
  refine (ofNative (optional _)).bind fun count v hNext _ => ?_
  refine (ofNative (countStyle count)).bindPlain fun count w hLater => ?_
  refine (ofNative (items _ (hMembers.mono (hNext.trans hLater)))).bind fun items x _ _ => ?_
  refine (mapM_plain fun v _ y _ => ofNative (enumMember v)).bindPlain fun members y _ => ?_
  exact lift (request _)

/-- The end of a macro definition, from its expansion to the request. -/
theorem defineWith (name : String) (expansion params overload : Option Value) (doWhile : Bool) :
    g.SafeSteps s (do
      let expansion ← Generator.expansionOf expansion
      let params ← (match params with
        | none | some .nil => return none
        | some v => return some (← Generator.textsOf "macro parameter" v))
      let overload ← Generator.overloadOf overload
      Generator.request (Emit.define { name, params, expansion, doWhile, overload }) :
        Method Unit) Plain := by
  refine (ofNative (expansionOf expansion)).bindPlain fun expansion t _ => ?_
  refine bindPlain ?_ fun params u _ => ?_
  · split
    · exact .pure fun _ _ => trivial
    · exact .pure fun _ _ => trivial
    · exact (ofNative (textsOf _ _)).bindPlain fun _ _ _ => .pure fun _ _ => trivial
  · refine (ofNative (overloadOf overload)).bindPlain fun overload v _ => ?_
    exact lift (request _)

theorem define : g.SafeSteps s Generator.define Plain := by
  unfold Generator.define
  refine (ofNative (required _)).bind fun name t _ _ => ?_
  refine (ofNative (text _ name)).bindPlain fun name t _ => ?_
  refine (ofNative (optionalNamed _)).bind fun namedParams t _ _ => ?_
  refine (ofNative (optionalNamed _)).bind fun namedExpansion t _ _ => ?_
  refine bindPlain ?_ fun doWhile t _ => ?_
  · refine (ofNative (optionalNamed _)).bind fun doWhile t _ _ => ?_
    split
    · exact lift (Safe.isTrue _)
    · exact .pure fun _ _ => trivial
  · refine (ofNative (optionalNamed _)).bind fun overload t _ _ => ?_
    refine (ofNative rest).bind fun positional t _ _ => ?_
    apply SafeSteps.ite
    · exact defineWith _ _ _ _ _
    · refine (ofNative (fail _)).bindPlain fun _ u _ => ?_
      exact defineWith _ _ _ _ _

/-- The arguments of a look-up table. -/
theorem tableArguments (namedType : Option Value) : g.SafeSteps s (do
    match ← Native.rest with
    | [type, name, rows] => return (some type, name, rows)
    | [name, rows] => return (namedType, name, rows)
    | _ => Native.fail .tableArguments : Native (Option Value × Value × Value))
    fun t parts => g.FreeValue t parts.2.2 := by
  refine rest.bind fun values u _ hValues => ?_
  split
  · exact .pure fun _ hGrown => (hValues _ (by simp)).mono hGrown
  · exact .pure fun _ hGrown => (hValues _ (by simp)).mono hGrown
  · exact fail _

theorem lookUpTable : g.SafeSteps s Generator.table Plain := by
  unfold Generator.table
  refine (ofNative (optionalNamed _)).bind fun namedType t _ _ => ?_
  refine (ofNative (tableArguments namedType)).bind fun parts u _ hRows => ?_
  refine (ofNative (text _ _)).bindPlain fun name v hNext => ?_
  refine (ofNative (optionalText _ _)).bindPlain fun type w hLater => ?_
  refine (ofNative (items _ (hRows.mono (hNext.trans hLater)))).bind fun rows x _ _ => ?_
  refine (mapM_plain fun v _ y _ => ofNative (tableRow name v)).bindPlain fun rows y _ => ?_
  exact lift (request _)

/-- Branches of a chain are safe if conditions and bodies are from every later store. -/
theorem branches {style : ChainStyle} {count : Nat} {hasElse : Bool}
    {condition : Value → EvalM String} {body : Value → EvalM Unit} {items : List Value}
    (hCondition : ∀ v ∈ items, ∀ t, s.Grown t → g.Safe t (condition v) Plain)
    (hBody : ∀ v ∈ items, ∀ t, s.Grown t → g.Safe t (body v) Plain) (index : Nat) :
    g.Safe s (Emission.branches style count hasElse condition body index items) Plain := by
  induction items generalizing s index with
  | nil => exact .pure fun _ _ => trivial
  | cons v rest ih =>
      refine (hCondition v List.mem_cons_self s (.refl s)).bindPlain fun text t hGrown => ?_
      refine (Safe.withScope _ (hBody v List.mem_cons_self t hGrown)).bindPlain fun _ u hNext => ?_
      have hAll := hGrown.trans hNext
      apply ih
      · intro w hw x hLater
        exact hCondition w (List.mem_cons_of_mem _ hw) x (hAll.trans hLater)
      · intro w hw x hLater
        exact hBody w (List.mem_cons_of_mem _ hw) x (hAll.trans hLater)

/-- A chain is safe if conditions, bodies and what is done otherwise are. -/
theorem chain {style : ChainStyle} {condition : Value → EvalM String} {body : Value → EvalM Unit}
    {items : List Value} {otherwise : Option (EvalM Unit)}
    (hCondition : ∀ v ∈ items, ∀ t, s.Grown t → g.Safe t (condition v) Plain)
    (hBody : ∀ v ∈ items, ∀ t, s.Grown t → g.Safe t (body v) Plain)
    (hOtherwise : ∀ action ∈ otherwise, ∀ t, s.Grown t → g.Safe t action Plain) :
    g.Safe s (Emission.chain Stop.ofRefusal style items condition body otherwise) Plain := by
  cases otherwise with
  | none => exact branches hCondition hBody 0
  | some action =>
      unfold Emission.chain
      dsimp only
      split
      · exact .throw _
      · refine (branches hCondition hBody 0).bindPlain fun _ t hGrown => ?_
        have hAction := hOtherwise action rfl t hGrown
        split
        · exact hAction
        · exact hAction.withScope _

theorem conditions (h : g.SafeLevel ev) : g.SafeSteps s (Generator.conditions ev) Plain := by
  unfold Generator.conditions
  refine (ofNative (required _)).bind fun given t _ hGiven => ?_
  refine (ofNative (items _ hGiven)).bind fun items u hStart hItems => ?_
  refine (ofNative (optional _)).bind fun style v hNext _ => ?_
  refine (ofNative (chainStyle style)).bindPlain fun style w hLater => ?_
  refine (ofNative (required _)).bind fun condition x hFirst hCondition => ?_
  refine (ofNative (required _)).bind fun body y hSecond hBody => ?_
  refine (ofNative (optional _)).bind fun otherwise z hThird hOtherwise => ?_
  have hOne := hSecond.trans hThird
  have hAll := hNext.trans (hLater.trans (hFirst.trans hOne))
  apply lift
  apply chain
  · intro v hv t hGrown
    have hItem := freeValues_cons.2 ⟨(hItems v hv).mono (hAll.trans hGrown), freeValues_nil⟩
    refine (h.callWith (hCondition.mono (hOne.trans hGrown)) hItem).bind fun answer t _ _ => ?_
    split
    · exact .pure fun _ _ => trivial
    · exact .cTextOf _
  · intro v hv t hGrown
    have hItem := freeValues_cons.2 ⟨(hItems v hv).mono (hAll.trans hGrown), freeValues_nil⟩
    exact (h.callWith (hBody.mono (hThird.trans hGrown)) hItem).discard
  · intro action hAction t hGrown
    cases otherwise with
    | none => cases hAction
    | some f =>
        have hFree := (hOtherwise f rfl).mono hGrown
        have hCall := (h.callWith hFree freeValues_nil).discard
        cases f with
        | nil => cases hAction
        | _ =>
            cases hAction
            exact hCall

theorem sectioned (h : g.SafeLevel ev) : g.SafeSteps s (Generator.sectioned ev) Plain := by
  unfold Generator.sectioned
  refine (ofNative (required _)).bind fun label t _ _ => ?_
  refine (ofNative (text _ label)).bindPlain fun label t _ => ?_
  refine (ofNative (required _)).bind fun body t _ hBody => ?_
  apply lift
  apply Safe.withSection
  exact (h.callWith hBody freeValues_nil).discard

/-- Every method of the generator is safe: the cases are the methods one by one. -/
theorem run (h : g.SafeLevel ev) (method : String) :
    g.SafeSteps s (Generator.run ev method) Plain := by
  unfold Generator.run
  split
  · exact line
  · exact lift (write _)
  · exact enter h
  · exact enums h
  · exact define
  · exact lookUpTable
  · exact conditions h
  · exact sectioned h
  · exact ofNative (fail _)

end SafeSteps

/-- Calling the generator is safe as soon as the evaluator of parts is. -/
theorem SafeLevel.generate (h : g.SafeLevel ev) : g.SafeGenerate (Generator.call ev) := by
  intro s method args hArgs
  apply Safe.withNative
  refine (SafeSteps.run h method args hArgs).bind ?_
  rintro ⟨⟨⟩, rest⟩ t _ _
  dsimp only
  split
  · exact .fail _
  · exact .pure fun _ _ => freeValue_of_cell?_eq_none rfl

/-- With any fuel the evaluator keeps what is guarded. -/
theorem safeLevel (g : Guard) (fuel : Nat) : g.SafeLevel (level fuel) := by
  induction fuel with
  | zero =>
      constructor
      · exact fun _ _ => .throw _
      · exact fun _ _ => .throw _
      · exact fun _ _ _ _ _ => .throw _
  | succ fuel ih =>
      constructor
      · exact fun _ e => Safe.evalExpr ih ih.generate e
      · exact fun _ st => Safe.runStmt ih st
      · exact fun _ _ _ hFunction hArgs => Safe.callValue ih hFunction hArgs

/-- A script that starts in free scopes keeps what is guarded, however it ends. -/
theorem safe_runProgram {env : Env} (hEnv : g.FreeEnv s env) (fuel : Nat)
    (program : Script.Program) (unit : Nat) :
    g.Safe s (runProgram fuel program unit env) Plain := by
  have hStart : g.Safe s (modify ({ · with unit, env }) : EvalM Unit) Plain := by
    refine Safe.modify fun m hReached => ⟨hReached.keeps.advances, ?_⟩
    rintro _ ⟨⟩
    exact hEnv.mono hReached.grown
  refine hStart.bindPlain fun _ t _ => ?_
  apply Safe.withFrame
  refine ((safeLevel g fuel).stmts program.stmts).bind fun flow u _ _ => ?_
  split
  · exact .pure fun _ _ => trivial
  · exact .pure fun _ _ => trivial
  · exact .fail _
  · exact .fail _

end Guard

end Metagen
