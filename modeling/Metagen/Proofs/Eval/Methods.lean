import Metagen.Proofs.Eval.Congruence

/-! The methods of the generator: those of two evaluators that mirror each other mirror each other.
-/

namespace Metagen.Eval

open Script Emission

variable {t : Telling} {whole part : Surroundings → Prop} {entering : Machine → Prop}
  {ev ev' : Level} {around : Surroundings}

/-- Whatever the arguments are, one method mirrors the other. -/
def MethodMirrors (t : Telling) (around : Surroundings) {α : Type} (method mirror : Method α) :
    Prop :=
  ∀ args, Mirrors t around Any (method args) (mirror args)

namespace MethodMirrors

variable {α β : Type}

theorem pure (a : α) : MethodMirrors t around (pure a) (pure a) := fun _ => .pure trivial

theorem bind {first first' : Method α} {second second' : α → Method β}
    (hFirst : MethodMirrors t around first first')
    (hSecond : ∀ a, MethodMirrors t around (second a) (second' a)) :
    MethodMirrors t around (first >>= second) (first' >>= second') :=
  fun args => (hFirst args).bindAny fun r => hSecond r.1 r.2

theorem ofNative (action : Native α) :
    MethodMirrors t around (Method.ofNative action) (Method.ofNative action) :=
  fun _ => (QuietStep.onStore _).mirrors

/-- The same native steps before two methods. -/
theorem native (action : Native α) {method method' : α → Method β}
    (h : ∀ a, MethodMirrors t around (method a) (method' a)) :
    MethodMirrors t around (Method.ofNative action >>= method)
      (Method.ofNative action >>= method') :=
  bind (ofNative action) h

theorem lift {action mirror : EvalM α} (h : Mirrors t around Any action mirror) :
    MethodMirrors t around (StateT.lift action : Method α) (StateT.lift mirror) :=
  fun _ => h.bindAny fun _ => .pure trivial

theorem quietStep {action : EvalM α} (h : QuietStep action) :
    MethodMirrors t around (StateT.lift action : Method α) (StateT.lift action) := lift h.mirrors

theorem write (change : Emitter → Emitter) :
    MethodMirrors t around (StateT.lift (Generator.write change) : Method Unit)
      (StateT.lift (Generator.write change)) := quietStep (.changeEmitter change)

theorem request (emit : Emit Unit) :
    MethodMirrors t around (StateT.lift (Generator.request emit) : Method Unit)
      (StateT.lift (Generator.request emit)) := quietStep (.liftEmit emit)

theorem mapM {f : α → Native β} (items : List α) :
    MethodMirrors t around (items.mapM fun a => Method.ofNative (f a))
      (items.mapM fun a => Method.ofNative (f a)) := by
  induction items with
  | nil =>
      rw [List.mapM_nil]
      exact pure _
  | cons item rest ih =>
      rw [List.mapM_cons]
      exact native _ fun _ => ih.bind fun _ => pure _

theorem ite {p : Prop} [Decidable p] {first first' second second' : Method α}
    (hFirst : MethodMirrors t around first first')
    (hSecond : MethodMirrors t around second second') :
    MethodMirrors t around (if p then first else second) (if p then first' else second') := by
  split
  · exact hFirst
  · exact hSecond

end MethodMirrors

/-- What a method does in its frame. -/
def Generator.perform (ev : Level) (method : String) (args : Args) : EvalM Value := do
  let ((), args) ← run ev method args
  match args.leftOver? with
  | some fault => fail fault
  | none => return .nil

theorem Generator.call_eq_withNative (ev : Level) (method : String) (args : Args) :
    Generator.call ev method args =
      withNative ("Meta." ++ method) (Generator.perform ev method args) := rfl

/-- The method calls no function of a script, and so mirrors itself. -/
abbrev SteadyMethod (t : Telling) (around : Surroundings) {α : Type} (method : Method α) : Prop :=
  MethodMirrors t around method method

namespace SteadyMethod

open MethodMirrors

variable {α : Type}

/-- An argument that may be missing, and what is made of it if it is there. -/
theorem givenNamed (name : String) {found : Value → Method α} {missing : Method α}
    (hFound : ∀ v, SteadyMethod t around (found v)) (hMissing : SteadyMethod t around missing) :
    SteadyMethod t around (do
      match ← Native.optionalNamed name with
      | some v => found v
      | none => missing) := by
  refine native _ fun v => ?_
  cases v with
  | none => exact hMissing
  | some v => exact hFound v

theorem line : SteadyMethod t around Generator.line := by
  refine native _ fun values => ?_
  split
  · exact write _
  · exact (quietStep (.readStore _)).bind fun _ => write _

/-- The end of a macro definition, from its expansion to the request. -/
theorem defineWith (name : String) (expansion params overload : Option Value) (doWhile : Bool) :
    SteadyMethod t around (do
      let expansion ← Generator.expansionOf expansion
      let params ← (match params with
        | none | some .nil => return none
        | some v => return some (← Generator.textsOf "macro parameter" v))
      let overload ← Generator.overloadOf overload
      Generator.request (Emit.define { name, params, expansion, doWhile, overload }) :
        Method Unit) := by
  refine native _ fun expansion => bind ?_ fun params => ?_
  · split
    · exact pure _
    · exact pure _
    · exact native _ fun _ => pure _
  · exact native _ fun overload => request _

/-- Requesting a macro calls no function of a script, and so the method mirrors itself. -/
theorem define : SteadyMethod t around Generator.define := by
  unfold Generator.define
  refine native _ fun name => native _ fun name => ?_
  refine native _ fun namedParams => native _ fun namedExpansion => ?_
  refine (givenNamed _ (fun v => quietStep (.isTrue v)) (pure _)).bind fun doWhile => ?_
  refine native _ fun overload => native _ fun positional => ite ?_ ?_
  · exact defineWith _ _ _ _ _
  · exact native _ fun _ => defineWith _ _ _ _ _

theorem lookUpTable : SteadyMethod t around Generator.table := by
  unfold Generator.table
  refine native _ fun namedType => bind (ofNative _) fun parts => ?_
  refine native _ fun name => native _ fun type => native _ fun rows => ?_
  exact (mapM _).bind fun rows => request _

end SteadyMethod

section

-- Functions of the script may be called for the bodies of things.
variable (h : LevelsMirror t whole part entering ev ev')
  (hEntering : ∀ m : Machine, m.around = around → entering m)

include h hEntering

namespace MethodMirrors

theorem discarded (function : Value) (positional : List Value) :
    Mirrors t around Any (Functor.discard (ev.callWith function positional))
      (Functor.discard (ev'.callWith function positional)) :=
  (h.callWith hEntering function positional).map

/-- The method that enters a scope is mirrored if calls of its body are. -/
theorem enter : MethodMirrors t around (Generator.enter ev) (Generator.enter ev') := by
  unfold Generator.enter
  refine native _ fun header => native _ fun header => native _ fun body => ?_
  refine native _ fun opening => native _ fun opening => ?_
  refine native _ fun closing => native _ fun closing => ?_
  refine bind (SteadyMethod.givenNamed _ (fun v => ?_) (pure _)) fun indented => ?_
  · exact (quietStep (.isTrue v)).bind fun _ => pure _
  · exact lift ((discarded h hEntering body []).withScope _)

/-- The method for enumerations is mirrored if calls that collect members are. -/
theorem enums : MethodMirrors t around (Generator.enums ev) (Generator.enums ev') := by
  have hCollected : ∀ given, MethodMirrors t around
      (do
        let collected ← makeCell (·.newList #[])
        Functor.discard (ev.callWith given [collected])
        return collected : Method Value)
      (do
        let collected ← makeCell (·.newList #[])
        Functor.discard (ev'.callWith given [collected])
        return collected) := fun given =>
    (quietStep (.makeCell _)).bind fun collected =>
      ((lift (h.callWith hEntering given [collected])).bind fun _ => pure PUnit.unit).bind
        fun _ => pure _
  unfold Generator.enums
  refine native _ fun name => native _ fun name => ?_
  refine native _ fun underlying => native _ fun underlying => ?_
  refine native _ fun given => bind ?_ fun members => ?_
  · split
    · exact hCollected _
    · exact hCollected _
    · exact pure _
  refine native _ fun count => native _ fun count => native _ fun items => ?_
  exact (mapM _).bind fun members => request _

omit hEntering h in
/-- Branches of a chain are mirrored if conditions and bodies are. -/
theorem branches {style : ChainStyle} {count : Nat} {hasElse : Bool}
    {condition condition' : Value → EvalM String} {body body' : Value → EvalM Unit}
    (hCondition : ∀ v, Mirrors t around Any (condition v) (condition' v))
    (hBody : ∀ v, Mirrors t around Any (body v) (body' v)) (index : Nat) (items : List Value) :
    Mirrors t around Any (Emission.branches style count hasElse condition body index items)
      (Emission.branches style count hasElse condition' body' index items) := by
  induction items generalizing index with
  | nil => exact .pure trivial
  | cons v rest ih =>
      refine (hCondition v).bindAny fun text => ?_
      exact ((hBody v).withScope _).bindAny fun _ => ih (index + 1)

omit hEntering h in
/-- A chain is mirrored if conditions, bodies and what is done otherwise are. -/
theorem chain {style : ChainStyle} {condition condition' : Value → EvalM String}
    {body body' : Value → EvalM Unit} {items : List Value}
    {otherwise otherwise' : Option (EvalM Unit)}
    (hCondition : ∀ v, Mirrors t around Any (condition v) (condition' v))
    (hBody : ∀ v, Mirrors t around Any (body v) (body' v))
    (hOtherwise : Option.Rel (Mirrors t around Any) otherwise otherwise') :
    Mirrors t around Any
      (Emission.chain Stop.ofRefusal style items condition body otherwise)
      (Emission.chain Stop.ofRefusal style items condition' body' otherwise') := by
  cases hOtherwise with
  | none => exact branches hCondition hBody 0 items
  | some hAction =>
      unfold Emission.chain
      dsimp only
      split
      · exact .fail _
      · refine (branches hCondition hBody 0 items).bindAny fun _ => ?_
        exact .ite hAction (hAction.withScope _)

/-- The method for chains is mirrored if calls of its functions are. -/
theorem conditions :
    MethodMirrors t around (Generator.conditions ev) (Generator.conditions ev') := by
  unfold Generator.conditions
  refine native _ fun given => native _ fun items => native _ fun style => ?_
  refine native _ fun style => native _ fun condition => native _ fun body => ?_
  refine native _ fun otherwise => lift ?_
  refine chain (fun v => ?_) (fun v => discarded h hEntering body [v]) ?_
  · refine (h.callWith hEntering condition [v]).bindAny fun answer => ?_
    split
    · exact .pure trivial
    · exact (QuietStep.cTextOf _).mirrors
  · split
    · exact .none
    · exact .none
    · exact .some (discarded h hEntering _ [])

theorem sectioned : MethodMirrors t around (Generator.sectioned ev) (Generator.sectioned ev') := by
  unfold Generator.sectioned
  refine native _ fun label => native _ fun label => native _ fun body => ?_
  exact lift ((discarded h hEntering body []).withSection _)

/-- Every method of the generator is mirrored: the cases are the methods one by one. -/
theorem run (method : String) :
    MethodMirrors t around (Generator.run ev method) (Generator.run ev' method) := by
  unfold Generator.run
  split
  · exact SteadyMethod.line
  · exact write _
  · exact enter h hEntering
  · exact enums h hEntering
  · exact SteadyMethod.define
  · exact SteadyMethod.lookUpTable
  · exact conditions h hEntering
  · exact sectioned h hEntering
  · exact ofNative _

end MethodMirrors

/-- What a method does in its frame is mirrored as soon as the evaluators of parts mirror each
other. -/
theorem LevelsMirror.perform (method : String) (args : Args) :
    Mirrors t around Any (Generator.perform ev method args)
      (Generator.perform ev' method args) := by
  refine (MethodMirrors.run h hEntering method args).bindAny ?_
  rintro ⟨⟨⟩, rest⟩
  dsimp only
  split
  · exact .fail _
  · exact .pure trivial

end

end Metagen.Eval
