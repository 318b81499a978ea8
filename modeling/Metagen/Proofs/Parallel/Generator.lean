import Metagen.Eval.Run
import Metagen.Proofs.Parallel.Rules

/-! The methods of the generator and whole scripts, side by side. What they emit is the same, and
what they return is paired. -/

namespace Metagen

open Eval Emission

namespace Pairing

variable {g : Pairing} {ev : Level} {v w : Value} {α β γ : Type}

/-- One step of a method follows another. -/
abbrev MethodStep (g : Pairing) (R : α → β → Prop) (first : Method α) (second : Method β) : Prop :=
  g.FollowsGiven (ledgers g.Machines) R first second

namespace NativeStep

open FollowsGiven

theorem refuse {R : α → β → Prop} (error : EmissionError) {second : Native β} :
    g.NativeStep R (Generator.refuse error) second := fail _

/-- Texts that are given alone or in a list are the same on both sides. -/
theorem textsOf (what : String) (h : g.Values v w) :
    g.NativeStep Eq (Generator.textsOf what v) (Generator.textsOf what w) := by
  cases h with
  | text t => exact pure rfl
  | list hPair =>
      exact (read fun _ _ hStores => hStores.listAt hPair).bind fun _ _ hItems =>
        mapMSame hItems fun _ _ hv => text what hv
  | _ => exact fail _

/-- A member of an enumeration is written the same, with a value or without one. -/
theorem enumMember (h : g.Values v w) :
    g.NativeStep Eq (Generator.enumMember v) (Generator.enumMember w) := by
  cases h with
  | text t => exact pure rfl
  | @list i j hPair =>
      have hRead : g.NativeStep g.Items (Native.read (·.listAt i)) (Native.read (·.listAt j)) :=
        read fun _ _ hStores => hStores.listAt hPair
      refine hRead.bind fun items items' hItems => ?_
      unfold Items at hItems
      generalize items.toList = vs, items'.toList = ws at hItems
      -- Only a name and a value make a pair.
      cases hItems with
      | nil => exact fail _
      | cons hName hRest =>
          cases hRest with
          | nil => cases hName <;> exact fail _
          | cons hv hMore =>
              cases hMore with
              | cons _ _ => cases hName <;> exact fail _
              | nil =>
                  cases hName with
                  | text name => exact (cText hv).bindSame fun _ => pure rfl
                  | _ => exact fail _
  | _ => exact fail _

/-- How members are counted is said in plain values, which are the same on both sides. -/
theorem countStyle {a b : Option Value} (h : Option.Rel g.Values a b) :
    g.NativeStep Eq (Generator.countStyle a) (Generator.countStyle b) := by
  cases h with
  | none => exact pure rfl
  | some hv =>
      have hText := text "count style" hv
      cases hv with
      | nil => exact pure rfl
      | bool b => cases b <;> exact pure rfl
      | _ =>
          refine hText.bindSame fun word => ?_
          cases CountStyle.ofWord word with
          | ok style => exact pure rfl
          | error error => exact refuse _

/-- The expansion of a macro is the text itself or the C text of a value, and is the same on both
sides. -/
theorem expansionOf {a b : Option Value} (h : Option.Rel g.Values a b) :
    g.NativeStep Eq (Generator.expansionOf a) (Generator.expansionOf b) := by
  cases h with
  | none => exact fail _
  | some hv =>
      have hText := cText hv
      cases hv with
      | text t => exact pure rfl
      | _ => exact hText

/-- Names with the C texts of what they stand for. -/
theorem namedTexts {made : String → String → γ} {fields fields' : Bindings Value}
    (h : g.Fields fields fields') :
    g.NativeStep Eq
      (fields.entries.mapM fun (name, v) => return made name (← Native.cText v))
      (fields'.entries.mapM fun (name, v) => return made name (← Native.cText v)) := by
  refine mapMSame h ?_
  rintro ⟨name, v⟩ ⟨_, w⟩ ⟨rfl, hv⟩
  exact (cText hv).bindSame fun _ => pure rfl

/-- The values that select an overload are written as C text, which is the same on both sides. -/
theorem overloadOf {a b : Option Value} (h : Option.Rel g.Values a b) :
    g.NativeStep Eq (Generator.overloadOf a) (Generator.overloadOf b) := by
  cases h with
  | none => exact pure rfl
  | some hv =>
      cases hv with
      | nil => exact pure rfl
      | record hPair =>
          exact (read fun _ _ hStores => hStores.recordAt hPair).bind fun _ _ hFields =>
            namedTexts hFields
      | _ => exact fail _

/-- A cell of a table's row gives members with the same names, types and C texts. -/
theorem tableMembers (table : String) (h : g.Values v w) :
    g.NativeStep Eq (Generator.tableMembers table v) (Generator.tableMembers table w) := by
  cases h with
  | record hPair =>
      exact (read fun _ _ hStores => hStores.recordAt hPair).bind fun _ _ hFields =>
        namedTexts hFields
  | @list i j hPair =>
      have hRead : g.NativeStep g.Items (Native.read (·.listAt i)) (Native.read (·.listAt j)) :=
        read fun _ _ hStores => hStores.listAt hPair
      refine hRead.bind fun items items' hItems => ?_
      unfold Items at hItems
      generalize items.toList = vs, items'.toList = ws at hItems
      -- A member is a name and a value, perhaps after a type.
      cases hItems with
      | nil => exact refuse _
      | cons hFirst hRest =>
          cases hRest with
          | nil => cases hFirst <;> exact refuse _
          | cons hSecond hMore =>
              cases hMore with
              | nil =>
                  cases hFirst with
                  | text name => exact (cText hSecond).bindSame fun _ => pure rfl
                  | _ => exact refuse _
              | cons hThird hOthers =>
                  cases hOthers with
                  | cons _ _ => cases hFirst <;> cases hSecond <;> exact refuse _
                  | nil =>
                      cases hFirst with
                      | text type =>
                          cases hSecond with
                          | text name => exact (cText hThird).bindSame fun _ => pure rfl
                          | _ => exact refuse _
                      | _ => exact refuse _
  | _ => exact refuse _

/-- The cells of a row, if it is a record or a list. -/
theorem cellsOf (table : String) : g.Values v w →
    g.NativeStep (List.Forall₂ g.Values)
      (match v with
        | .record _ => return [v]
        | .list cell => return (← Native.read (·.listAt cell)).toList
        | v => Generator.refuse (.malformedTable table
          ("an entry must be a list or a record, not " ++ v.typeName)) : Native (List Value))
      (match w with
        | .record _ => return [w]
        | .list cell => return (← Native.read (·.listAt cell)).toList
        | v => Generator.refuse (.malformedTable table
          ("an entry must be a list or a record, not " ++ v.typeName))) := by
  intro hv
  cases hv with
  | record hPair => exact pure (.cons (.record hPair) .nil)
  | list hPair =>
      exact (read fun _ _ hStores => hStores.listAt hPair).bind fun _ _ hItems => pure hItems
  | _ => exact refuse _

/-- A row of a table is written the same on both sides, with its index and its members. -/
theorem tableRow (table : String) (h : g.Values v w) :
    g.NativeStep Eq (Generator.tableRow table v) (Generator.tableRow table w) := by
  refine (cellsOf table h).bind fun cells cells' hPairs => ?_
  have hMembers : ∀ (index : Option String) {cells cells' : List Value},
      List.Forall₂ g.Values cells cells' → g.NativeStep Eq
        (do
          return { index, members := (← cells.mapM (Generator.tableMembers table)).flatten } :
          Native TableRow)
        (do
          return { index, members := (← cells'.mapM (Generator.tableMembers table)).flatten }) :=
    fun index _ _ hCells =>
      (mapMSame hCells fun _ _ hv => tableMembers table hv).bindSame fun _ => pure rfl
  cases hPairs with
  | nil => exact hMembers none .nil
  | cons hFirst hRest =>
      have hText := cText hFirst
      cases hFirst with
      | list hPair => exact hMembers none (.cons (.list hPair) hRest)
      | record hPair => exact hMembers none (.cons (.record hPair) hRest)
      | _ => exact hText.bindSame fun index => hMembers (some index) hRest

/-- The style of a chain is named by a text, which is the same on both sides. -/
theorem chainStyle {a b : Option Value} (h : Option.Rel g.Values a b) :
    g.NativeStep Eq (Generator.chainStyle a) (Generator.chainStyle b) := by
  cases h with
  | none => exact pure rfl
  | some hv =>
      refine (text _ hv).bindSame fun word => ?_
      split
      · exact pure rfl
      · exact refuse _

/-- The type, the name and the rows of a look-up table. -/
def TableParts (g : Pairing) (x y : Option Value × Value × Value) : Prop :=
  Option.Rel g.Values x.1 y.1 ∧ g.Values x.2.1 y.2.1 ∧ g.Values x.2.2 y.2.2

/-- The arguments of a table are told apart by their number, which is the same on both sides. -/
theorem tableArguments {a b : Option Value} (h : Option.Rel g.Values a b) :
    g.NativeStep (TableParts g) (do
      match ← Native.rest with
      | [type, name, rows] => return (some type, name, rows)
      | [name, rows] => return (a, name, rows)
      | _ => Native.fail .tableArguments : Native (Option Value × Value × Value)) (do
      match ← Native.rest with
      | [type, name, rows] => return (some type, name, rows)
      | [name, rows] => return (b, name, rows)
      | _ => Native.fail .tableArguments : Native (Option Value × Value × Value)) := by
  refine rest.bind fun values values' hValues => ?_
  cases hValues with
  | nil => exact fail _
  | cons hFirst hRest =>
      cases hRest with
      | nil => exact fail _
      | cons hSecond hMore =>
          cases hMore with
          | nil => exact pure ⟨h, hFirst, hSecond⟩
          | cons hThird hOthers =>
              cases hOthers with
              | nil => exact pure ⟨.some hFirst, hSecond, hThird⟩
              | cons _ _ => exact fail _

end NativeStep

namespace Lockstep

theorem write {change : Emitter → Emitter} {layout : Layout}
    (h : ∀ e, change e = e.after layout) :
    g.Lockstep Eq (Generator.write change) (Generator.write change) := changeEmitter h

theorem request {emit : Emit Unit} (h : Portable emit) :
    g.Lockstep Eq (Generator.request emit) (Generator.request emit) := liftEmit _ h

end Lockstep

namespace MethodStep

open FollowsGiven

variable {R : α → β → Prop}

/-- Native steps are steps of a method. -/
theorem ofNative {first : Native α} {second : Native β} (h : g.NativeStep R first second) :
    g.MethodStep R (Method.ofNative first) (Method.ofNative second) :=
  fun args args' hArgs => Lockstep.onStore (h args args' hArgs)

/-- Steps of the script within a method leave the arguments as they are. -/
theorem lift {first : EvalM α} {second : EvalM β} (h : g.Lockstep R first second) :
    g.MethodStep R (StateT.lift first : Method α) (StateT.lift second) :=
  fun _ _ hArgs => h.bind fun _ _ hResult => .pure ⟨hResult, hArgs⟩

/-- A native step, whose result the rest depends on. -/
theorem native {P : γ → γ → Prop} {first second : Native γ} {next : γ → Method α}
    {next' : γ → Method β} (h : g.NativeStep P first second)
    (hNext : ∀ a b, P a b → g.MethodStep R (next a) (next' b)) :
    g.MethodStep R (Method.ofNative first >>= next) (Method.ofNative second >>= next') :=
  (ofNative h).bind hNext

/-- A native step that gives the same on both sides. -/
theorem nativeSame {first second : Native γ} {next : γ → Method α} {next' : γ → Method β}
    (h : g.NativeStep Eq first second) (hNext : ∀ a, g.MethodStep R (next a) (next' a)) :
    g.MethodStep R (Method.ofNative first >>= next) (Method.ofNative second >>= next') :=
  (ofNative h).bindSame hNext

/-- An argument that may be given by its name, and what is made of it. -/
theorem givenNamed (name : String) {found : Value → Method α} {found' : Value → Method β}
    {missing : Method α} {missing' : Method β}
    (hFound : ∀ v w, g.Values v w → g.MethodStep R (found v) (found' w))
    (hMissing : g.MethodStep R missing missing') : g.MethodStep R (do
      match ← Native.optionalNamed name with
      | some v => found v
      | none => missing) (do
      match ← Native.optionalNamed name with
      | some v => found' v
      | none => missing') := by
  refine native (NativeStep.optionalNamed name) ?_
  rintro _ _ (hv | _)
  · exact hFound _ _ hv
  · exact hMissing

/-- The fragments that a value is written as are the same for paired values. -/
theorem fragmentsOf_eq {s t : Store} (hStores : g.Stores s t) (h : g.Values v w) :
    Generator.fragmentsOf s v = Generator.fragmentsOf t w := by
  have hText := hStores.render_eq h
  cases h with
  | list hPair => exact map_eq_of_forall₂ (hStores.listAt hPair) fun _ _ hv => hStores.render_eq hv
  | _ => exact congrArg (fun text => [text]) hText

/-- Fragments of text are shown alike, so that both sides write the same lines. -/
theorem line : g.MethodStep Eq Generator.line Generator.line := by
  refine native NativeStep.rest fun values values' hValues => ?_
  cases hValues with
  | nil => exact lift (.write Emitter.blank_eq_after)
  | @cons v w rest rest' hv hRest =>
      have hFragments : g.Lockstep Eq
          (Eval.readStore fun s => (v :: rest).flatMap (Generator.fragmentsOf s))
          (Eval.readStore fun s => (w :: rest').flatMap (Generator.fragmentsOf s)) := by
        refine Lockstep.readStore fun s t hStores => ?_
        rw [List.flatMap_def, List.flatMap_def, map_eq_of_forall₂ (.cons hv hRest) fun _ _ hv =>
          fragmentsOf_eq hStores hv]
      exact (lift hFragments).bindSame fun _ => lift (.write (·.lines_eq_after _))

variable (h : g.Levels ev)

include h in
/-- A function that is called for what it does. -/
theorem discarded (hv : g.Values v w) {positional positional' : List Value}
    (hPositional : List.Forall₂ g.Values positional positional') :
    g.Lockstep Eq (Functor.discard (ev.callWith v positional))
      (Functor.discard (ev.callWith w positional')) := (h.callWith hv hPositional).discard

include h in
/-- A scope has the same delimiters on both sides, and its bodies follow each other inside of it. -/
theorem enter : g.MethodStep Eq (Generator.enter ev) (Generator.enter ev) := by
  unfold Generator.enter
  refine native (NativeStep.optional _) fun header header' hHeader => ?_
  refine nativeSame (NativeStep.optionalText _ hHeader) fun header => ?_
  refine native (NativeStep.required _) fun body body' hBody => ?_
  refine native (NativeStep.optionalNamed _) fun opening opening' hOpening => ?_
  refine nativeSame (NativeStep.optionalText _ hOpening) fun opening => ?_
  refine native (NativeStep.optionalNamed _) fun closing closing' hClosing => ?_
  refine nativeSame (NativeStep.optionalText _ hClosing) fun closing => ?_
  refine bindSame (givenNamed _ (fun v w hv => ?_) (pure rfl)) fun indented => ?_
  · exact (lift (Lockstep.isTrue hv)).bindSame fun _ => pure rfl
  · exact lift ((discarded h hBody .nil).withScope _)

include h in
/-- The members of an enumeration, given or collected by a function. -/
theorem members {given given' : Value} : g.Values given given' →
    g.MethodStep g.Values (match given with
      | .function _ | .builtin _ => do
        let collected ← makeCell (·.newList #[])
        Functor.discard (ev.callWith given [collected])
        return collected
      | v => return v : Method Value) (match given' with
      | .function _ | .builtin _ => do
        let collected ← makeCell (·.newList #[])
        Functor.discard (ev.callWith given' [collected])
        return collected
      | v => return v : Method Value) := by
  intro hGiven
  have hCollected : g.MethodStep g.Values (do
      let collected ← makeCell (·.newList #[])
      Functor.discard (ev.callWith given [collected])
      return collected : Method Value) (do
      let collected ← makeCell (·.newList #[])
      Functor.discard (ev.callWith given' [collected])
      return collected : Method Value) := by
    have hNew : g.Lockstep g.Values (makeCell (·.newList #[])) (makeCell (·.newList #[])) :=
      Lockstep.makeCell fun _ _ hStores => hStores.newList .nil
    refine (lift hNew).bind fun collected collected' hPair => ?_
    have hCall := h.callWith hGiven (.cons hPair .nil)
    exact (lift hCall).discard.bindSame fun _ => pure hPair
  cases hGiven with
  | function hPair => exact hCollected
  | builtin b => exact hCollected
  | _ => exact pure (by constructor <;> assumption)

include h in
/-- An enumeration is requested with the same members, whether they were given or collected by a
function. -/
theorem enums : g.MethodStep Eq (Generator.enums ev) (Generator.enums ev) := by
  unfold Generator.enums
  refine native (NativeStep.required _) fun name name' hName => ?_
  refine nativeSame (NativeStep.text _ hName) fun name => ?_
  refine native (NativeStep.optional _) fun underlying underlying' hUnderlying => ?_
  refine nativeSame (NativeStep.optionalText _ hUnderlying) fun underlying => ?_
  refine native (NativeStep.required _) fun given given' hGiven => ?_
  refine (members h hGiven).bind fun members members' hMembers => ?_
  refine native (NativeStep.optional _) fun count count' hCount => ?_
  refine nativeSame (NativeStep.countStyle hCount) fun count => ?_
  refine native (NativeStep.items _ hMembers) fun items items' hItems => ?_
  refine bindSame (mapMSame hItems fun v w hv => ofNative (NativeStep.enumMember hv)) fun _ => ?_
  exact lift (.request (.enumeration _))

/-- The end of a macro definition, from its expansion to the request. -/
theorem defineWith (name : String) (doWhile : Bool) {expansion expansion' : Option Value}
    {params params' overload overload' : Option Value}
    (hExpansion : Option.Rel g.Values expansion expansion') :
    Option.Rel g.Values params params' → Option.Rel g.Values overload overload' →
    g.MethodStep Eq (do
      let expansion ← Generator.expansionOf expansion
      let params ← (match params with
        | none | some .nil => return none
        | some v => return some (← Generator.textsOf "macro parameter" v))
      let overload ← Generator.overloadOf overload
      Generator.request (Emit.define { name, params, expansion, doWhile, overload }) :
        Method Unit) (do
      let expansion ← Generator.expansionOf expansion'
      let params ← (match params' with
        | none | some .nil => return none
        | some v => return some (← Generator.textsOf "macro parameter" v))
      let overload ← Generator.overloadOf overload'
      Generator.request (Emit.define { name, params, expansion, doWhile, overload }) :
        Method Unit) := by
  intro hParams hOverload
  have hTexts : ∀ v w, g.Values v w → g.MethodStep Eq
      (do return some (← Generator.textsOf "macro parameter" v) : Method (Option (List String)))
      (do return some (← Generator.textsOf "macro parameter" w)) := fun v w hv =>
    nativeSame (NativeStep.textsOf _ hv) fun _ => pure rfl
  refine nativeSame (NativeStep.expansionOf hExpansion) fun expansion => ?_
  refine bindSame ?_ fun params => ?_
  · cases hParams with
    | none => exact pure rfl
    | some hv =>
        cases hv with
        | nil => exact pure rfl
        | _ => exact hTexts _ _ (by constructor <;> assumption)
  · exact nativeSame (NativeStep.overloadOf hOverload) fun overload => lift (.request (.define _))

/-- Of paired lists of values the last ones are paired, if there are any. -/
theorem getLast?_of_pairs {vs ws : List Value} (h : List.Forall₂ g.Values vs ws) :
    Option.Rel g.Values vs.getLast? ws.getLast? := by
  induction h with
  | nil => exact .none
  | @cons v w rest rest' hv hRest ih =>
      cases hRest with
      | nil => exact .some hv
      | cons _ _ => rwa [List.getLast?_cons_cons, List.getLast?_cons_cons]

/-- Paired lists of values stay paired without their last ones. -/
theorem dropLast_of_pairs {vs ws : List Value} (h : List.Forall₂ g.Values vs ws) :
    List.Forall₂ g.Values vs.dropLast ws.dropLast := by
  induction h with
  | nil => exact .nil
  | @cons v w rest rest' hv hRest ih =>
      cases hRest with
      | nil => exact .nil
      | cons _ _ => exact .cons hv ih

/-- A macro is requested with the same name, parameters, expansion and overload on both sides. -/
theorem define : g.MethodStep Eq Generator.define Generator.define := by
  unfold Generator.define
  refine native (NativeStep.required _) fun name name' hName => ?_
  refine nativeSame (NativeStep.text _ hName) fun name => ?_
  refine native (NativeStep.optionalNamed _) fun named named' hNamed => ?_
  refine native (NativeStep.optionalNamed _) fun expansion expansion' hExpansion => ?_
  refine bindSame (givenNamed _ (fun v w hv => lift (Lockstep.isTrue hv)) (pure rfl))
    fun doWhile => ?_
  refine native (NativeStep.optionalNamed _) fun overload overload' hOverload => ?_
  refine native NativeStep.rest fun positional positional' hPositional => ?_
  -- What is left over is refused, on both sides or on neither.
  have hEnd : ∀ {expansion expansion' params params' : Option Value} {rest rest' : List Value},
      Option.Rel g.Values expansion expansion' → Option.Rel g.Values params params' →
      List.Forall₂ g.Values rest rest' → g.MethodStep Eq
        (do
          unless rest.isEmpty do (Native.fail .macroArguments : Native Unit)
          let expansion ← Generator.expansionOf expansion
          let params ← (match params with
            | none | some .nil => return none
            | some v => return some (← Generator.textsOf "macro parameter" v))
          let overload ← Generator.overloadOf overload
          Generator.request (Emit.define { name, params, expansion, doWhile, overload }) :
          Method Unit)
        (do
          unless rest'.isEmpty do (Native.fail .macroArguments : Native Unit)
          let expansion ← Generator.expansionOf expansion'
          let params ← (match params' with
            | none | some .nil => return none
            | some v => return some (← Generator.textsOf "macro parameter" v))
          let overload ← Generator.overloadOf overload'
          Generator.request (Emit.define { name, params, expansion, doWhile, overload }) :
          Method Unit) := by
    intro _ _ _ _ rest rest' hExpansion hParams hRest
    cases hRest with
    | nil => exact defineWith name doWhile hExpansion hParams hOverload
    | cons _ _ => exact native (P := fun _ _ => False) (NativeStep.fail _) nofun
  cases hExpansion with
  | some hv =>
      cases hNamed with
      | some hNamed => exact hEnd (.some hv) (.some hNamed) hPositional
      | none =>
          cases hPositional with
          | nil => exact hEnd (.some hv) .none .nil
          | cons hFirst hRest => exact hEnd (.some hv) (.some hFirst) hRest
  | none =>
      have hLast := getLast?_of_pairs hPositional
      have hOthers := dropLast_of_pairs hPositional
      dsimp only
      generalize positional.getLast? = last, positional'.getLast? = last' at hLast ⊢
      generalize positional.dropLast = others, positional'.dropLast = others' at hOthers ⊢
      cases hNamed with
      | some hNamed => exact hEnd hLast (.some hNamed) hOthers
      | none =>
          cases hOthers with
          | nil => exact hEnd hLast .none .nil
          | cons hFirst hRest => exact hEnd hLast (.some hFirst) hRest

/-- A table is requested with the same name, type and rows on both sides. -/
theorem lookUpTable : g.MethodStep Eq Generator.table Generator.table := by
  unfold Generator.table
  refine native (NativeStep.optionalNamed _) fun named named' hNamed => ?_
  refine native (NativeStep.tableArguments hNamed) ?_
  rintro ⟨type, name, rows⟩ ⟨type', name', rows'⟩ ⟨hType, hName, hRows⟩
  refine nativeSame (NativeStep.text _ hName) fun name => ?_
  refine nativeSame (NativeStep.optionalText _ hType) fun type => ?_
  refine native (NativeStep.items _ hRows) fun items items' hItems => ?_
  refine bindSame (mapMSame hItems fun v w hv => ofNative (NativeStep.tableRow name hv))
    fun rows => ?_
  exact lift (.request (.table _))

/-- The branches of two chains are written the same if conditions and bodies follow each other for
paired items. -/
theorem branches {style : ChainStyle} {count : Nat} {hasElse : Bool}
    {condition condition' : Value → EvalM String} {body body' : Value → EvalM Unit}
    (hCondition : ∀ v w, g.Values v w → g.Lockstep Eq (condition v) (condition' w))
    (hBody : ∀ v w, g.Values v w → g.Lockstep Eq (body v) (body' w)) (index : Nat)
    {items items' : List Value} (hItems : List.Forall₂ g.Values items items') :
    g.Lockstep Eq (Emission.branches style count hasElse condition body index items)
      (Emission.branches style count hasElse condition' body' index items') := by
  induction hItems generalizing index with
  | nil => exact .pure rfl
  | cons hv _ ih =>
      refine (hCondition _ _ hv).bindSame fun text => ?_
      exact ((hBody _ _ hv).withScope _).bindSame fun _ => ih (index + 1)

/-- Two chains are written the same if conditions, bodies and what comes otherwise follow each
other. -/
theorem chain {style : ChainStyle} {condition condition' : Value → EvalM String}
    {body body' : Value → EvalM Unit} {items items' : List Value}
    {otherwise otherwise' : Option (EvalM Unit)}
    (hCondition : ∀ v w, g.Values v w → g.Lockstep Eq (condition v) (condition' w))
    (hBody : ∀ v w, g.Values v w → g.Lockstep Eq (body v) (body' w))
    (hItems : List.Forall₂ g.Values items items')
    (hOtherwise : Option.Rel (g.Lockstep Eq) otherwise otherwise') :
    g.Lockstep Eq
      (Emission.chain Stop.ofRefusal style items condition body otherwise)
      (Emission.chain Stop.ofRefusal style items' condition' body' otherwise') := by
  cases hOtherwise with
  | none =>
      unfold Emission.chain
      rw [hItems.length_eq]
      exact branches hCondition hBody 0 hItems
  | some hAction =>
      unfold Emission.chain
      rw [hItems.length_eq, isEmpty_eq_of_forall₂ hItems]
      dsimp only
      split
      · exact .throw _
      · refine (branches hCondition hBody 0 hItems).bindSame fun _ => ?_
        exact .ite hAction (hAction.withScope _)

include h in
/-- A chain whose conditions and bodies are functions of the script: both are called for paired
items. -/
theorem conditions : g.MethodStep Eq (Generator.conditions ev) (Generator.conditions ev) := by
  unfold Generator.conditions
  refine native (NativeStep.required _) fun given given' hGiven => ?_
  refine native (NativeStep.items _ hGiven) fun items items' hItems => ?_
  refine native (NativeStep.optional _) fun style style' hStyle => ?_
  refine nativeSame (NativeStep.chainStyle hStyle) fun style => ?_
  refine native (NativeStep.required _) fun condition condition' hCondition => ?_
  refine native (NativeStep.required _) fun body body' hBody => ?_
  refine native (NativeStep.optional _) fun otherwise otherwise' hOtherwise => ?_
  refine lift (chain (fun v w hv => ?_) (fun v w hv => ?_) hItems ?_)
  · refine (h.callWith hCondition (.cons hv .nil)).bind fun answer answer' hAnswer => ?_
    have hText := Lockstep.cTextOf hAnswer
    cases hAnswer with
    | text t => exact .pure rfl
    | _ => exact hText
  · exact discarded h hBody (.cons hv .nil)
  · cases hOtherwise with
    | none => exact .none
    | some hf =>
        have hCall := discarded h hf .nil
        cases hf with
        | nil => exact .none
        | _ => exact .some hCall

include h in
/-- The method for sections writes the same label on both sides, and calls paired functions as its
body. -/
theorem sectioned : g.MethodStep Eq (Generator.sectioned ev) (Generator.sectioned ev) := by
  unfold Generator.sectioned
  refine native (NativeStep.required _) fun label label' hLabel => ?_
  refine nativeSame (NativeStep.text _ hLabel) fun label => ?_
  refine native (NativeStep.required _) fun body body' hBody => ?_
  exact lift ((discarded h hBody .nil).withSection _)

include h in
/-- Every method of the generator follows itself for paired arguments; the cases are the methods one
by one. -/
theorem run (method : String) :
    g.MethodStep Eq (Generator.run ev method) (Generator.run ev method) := by
  unfold Generator.run
  split
  · exact line
  · exact lift (.write Emitter.blank_eq_after)
  · exact enter h
  · exact enums h
  · exact define
  · exact lookUpTable
  · exact conditions h
  · exact sectioned h
  · exact ofNative (NativeStep.fail _)

end MethodStep

/-- The methods of the generator give paired values as soon as the evaluator of parts does. -/
theorem Levels.generatesAlike (h : g.Levels ev) : g.GeneratesAlike (Generator.call ev) := by
  intro method args args' hArgs
  apply Lockstep.withNative
  refine (MethodStep.run h method args args' hArgs).bind ?_
  rintro ⟨⟨⟩, rest⟩ ⟨⟨⟩, rest'⟩ ⟨-, hRest⟩
  dsimp only
  cases hLeft : rest.leftOver? with
  | some fault => exact Lockstep.fail _
  | none =>
      rw [hRest.leftOver?_eq_none hLeft]
      exact .pure .nil

/-- With any fuel the evaluator gives paired results. -/
theorem levels (g : Pairing) (fuel : Nat) : g.Levels (level fuel) := by
  induction fuel with
  | zero =>
      constructor
      · exact fun _ => .throw _
      · exact fun _ => .throw _
      · exact fun _ _ _ _ _ _ => .throw _
  | succ fuel ih =>
      constructor
      · exact fun e => Lockstep.evalExpr ih ih.generatesAlike e
      · exact fun s => Lockstep.runStmt ih s
      · exact fun _ _ _ _ hv hArgs => Lockstep.callValue ih hv hArgs

/-- A script does the same from stores that are paired, whatever its number is. -/
theorem lockstep_runProgram {env env' : Env} (hEnv : g.Envs env env') (fuel : Nat)
    (program : Script.Program) (unit unit' : Nat) :
    g.Lockstep Eq (runProgram fuel program unit env) (runProgram fuel program unit' env') := by
  have hStart : g.Lockstep Eq (modify ({ · with unit, env }) : EvalM Unit)
      (modify fun m => { m with unit := unit', env := env' }) :=
    Lockstep.modify (fun _ _ hMachines => { hMachines with envs := hEnv }) fun _ _ => rfl
  refine hStart.bindSame fun _ => Lockstep.withFrame _ _ ?_
  refine ((levels g fuel).stmts program.stmts).bind fun flow flow' hFlows => ?_
  cases hFlows with
  | normal => exact .pure rfl
  | result _ => exact .pure rfl
  | leave => exact Lockstep.fail _
  | next => exact Lockstep.fail _

end Pairing

end Metagen
