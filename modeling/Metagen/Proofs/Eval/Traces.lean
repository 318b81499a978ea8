import Metagen.Proofs.Eval.Orderly

/-! The methods of the generator leave what they enter, and with them whole scripts; a script that
fails tells frames of code that was written in the scripts they name, the last of which is its own
top level. -/

namespace Metagen.Eval

open Script Emission

variable {scripts : Scripts} {here : Setting} {ev : Level}

/-- Whatever its arguments are, the method leaves what it enters. -/
def OrderlyMethod (scripts : Scripts) (here : Setting) {α : Type} (method : Method α) : Prop :=
  ∀ args, Orderly scripts here Any (method args)

namespace OrderlyMethod

variable {α β : Type}

theorem pure (a : α) : OrderlyMethod scripts here (pure a) := fun _ => .pure trivial

theorem bind {first : Method α} {second : α → Method β} (hFirst : OrderlyMethod scripts here first)
    (hSecond : ∀ a, OrderlyMethod scripts here (second a)) :
    OrderlyMethod scripts here (first >>= second) :=
  fun args => (hFirst args).bindAny fun r => hSecond r.1 r.2

theorem discard {action : Method α} (h : OrderlyMethod scripts here action) :
    OrderlyMethod scripts here (discard action) := h.bind fun _ => pure PUnit.unit

theorem ite {p : Prop} [Decidable p] {first second : Method α}
    (hFirst : OrderlyMethod scripts here first) (hSecond : OrderlyMethod scripts here second) :
    OrderlyMethod scripts here (if p then first else second) := by
  split
  · exact hFirst
  · exact hSecond

theorem mapM {f : α → Method β} (h : ∀ a, OrderlyMethod scripts here (f a)) (items : List α) :
    OrderlyMethod scripts here (items.mapM f) := by
  induction items with
  | nil =>
      rw [List.mapM_nil]
      exact pure _
  | cons item rest ih =>
      rw [List.mapM_cons]
      exact (h item).bind fun _ => ih.bind fun _ => pure _

theorem ofNative {action : Native α} (h : action.KeepsFunctions) :
    OrderlyMethod scripts here (Method.ofNative action) := fun args => .onStore (h args)

theorem lift {action : EvalM α} (h : Orderly scripts here Any action) :
    OrderlyMethod scripts here (StateT.lift action : Method α) :=
  fun _ => h.bindAny fun _ => .pure trivial

/-- An argument that may be missing, and what is made of it if it is there. -/
theorem givenNamed (name : String) {found : Value → Method α} {missing : Method α}
    (hFound : ∀ v, OrderlyMethod scripts here (found v))
    (hMissing : OrderlyMethod scripts here missing) : OrderlyMethod scripts here (do
      match ← Native.optionalNamed name with
      | some v => found v
      | none => missing) := by
  refine (ofNative (.optionalNamed name)).bind fun v => ?_
  cases v with
  | none => exact hMissing
  | some v => exact hFound v

theorem write {change : Emitter → Emitter} (h : ∀ e, (change e).file = e.file) :
    OrderlyMethod scripts here (StateT.lift (Generator.write change) : Method Unit) :=
  lift (.changeEmitter h)

theorem request {emit : Emit Unit} (h : KeepsFile emit) :
    OrderlyMethod scripts here (StateT.lift (Generator.request emit) : Method Unit) :=
  lift (.liftEmit h)

/-- A function of the script is called for the body of something. -/
theorem discarded (h : OrderlyLevel scripts ev) (function : Value) (positional : List Value) :
    Orderly scripts here Any (Functor.discard (ev.callWith function positional)) :=
  (h.callWith function positional).map

theorem line : OrderlyMethod scripts here Generator.line := by
  refine (ofNative .rest).bind fun values => ?_
  split
  · exact write fun e => e.file_blank
  · exact (lift (.readStore _)).bind fun _ => write fun e => e.file_lines _

/-- The method that enters a scope is orderly: the calls of its body are, and the file stays the
same. -/
theorem enter (h : OrderlyLevel scripts ev) : OrderlyMethod scripts here (Generator.enter ev) := by
  unfold Generator.enter
  refine (ofNative (.optional _)).bind fun header => ?_
  refine (ofNative (.optionalText _ header)).bind fun header => ?_
  refine (ofNative (.required _)).bind fun body => ?_
  refine (ofNative (.optionalNamed _)).bind fun opening => ?_
  refine (ofNative (.optionalText _ opening)).bind fun opening => ?_
  refine (ofNative (.optionalNamed _)).bind fun closing => ?_
  refine (ofNative (.optionalText _ closing)).bind fun closing => ?_
  refine bind (givenNamed _ (fun v => ?_) (pure _)) fun indented => ?_
  · exact (lift (.isTrue v)).bind fun _ => pure _
  · exact lift ((discarded h body []).withScope _)

/-- The method for enumerations is orderly, as collecting members is. -/
theorem enums (h : OrderlyLevel scripts ev) : OrderlyMethod scripts here (Generator.enums ev) := by
  have hCollected : ∀ given, OrderlyMethod scripts here (do
      let collected ← makeCell (·.newList #[])
      Functor.discard (ev.callWith given [collected])
      return collected : Method Value) := fun given =>
    (lift (.makeCell fun _ => rfl)).bind fun collected =>
      (lift (h.callWith given [collected])).discard.bind fun _ => pure _
  unfold Generator.enums
  refine (ofNative (.required _)).bind fun name => (ofNative (.text _ name)).bind fun name => ?_
  refine (ofNative (.optional _)).bind fun underlying => ?_
  refine (ofNative (.optionalText _ underlying)).bind fun underlying => ?_
  refine (ofNative (.required _)).bind fun given => bind ?_ fun members => ?_
  · split
    · exact hCollected _
    · exact hCollected _
    · exact pure _
  refine (ofNative (.optional _)).bind fun count => ?_
  refine (ofNative (.countStyle count)).bind fun count => ?_
  refine (ofNative (.items _ members)).bind fun items => ?_
  refine (mapM (fun v => ofNative (.enumMember v)) _).bind fun members => ?_
  exact request (.enumeration _)

/-- The end of a macro definition, from its expansion to the request. -/
theorem defineWith (name : String) (expansion params overload : Option Value) (doWhile : Bool) :
    OrderlyMethod scripts here (do
      let expansion ← Generator.expansionOf expansion
      let params ← (match params with
        | none | some .nil => return none
        | some v => return some (← Generator.textsOf "macro parameter" v))
      let overload ← Generator.overloadOf overload
      Generator.request (Emit.define { name, params, expansion, doWhile, overload }) :
        Method Unit) := by
  refine (ofNative (.expansionOf expansion)).bind fun expansion => bind ?_ fun params => ?_
  · split
    · exact pure _
    · exact pure _
    · exact (ofNative (.textsOf _ _)).bind fun _ => pure _
  · exact (ofNative (.overloadOf overload)).bind fun overload => request (.define _)

theorem define : OrderlyMethod scripts here Generator.define := by
  unfold Generator.define
  refine (ofNative (.required _)).bind fun name => (ofNative (.text _ name)).bind fun name => ?_
  refine (ofNative (.optionalNamed _)).bind fun namedParams => ?_
  refine (ofNative (.optionalNamed _)).bind fun namedExpansion => ?_
  refine (givenNamed _ (fun v => lift (.isTrue v)) (pure _)).bind fun doWhile => ?_
  refine (ofNative (.optionalNamed _)).bind fun overload => ?_
  refine (ofNative .rest).bind fun positional => ite ?_ ?_
  · exact defineWith _ _ _ _ _
  · exact (ofNative (.fail _)).bind fun _ => defineWith _ _ _ _ _

theorem lookUpTable : OrderlyMethod scripts here Generator.table := by
  unfold Generator.table
  refine (ofNative (.optionalNamed _)).bind fun namedType => ?_
  refine (ofNative (.tableArguments namedType)).bind fun parts => ?_
  refine (ofNative (.text _ _)).bind fun name => (ofNative (.optionalText _ _)).bind fun type => ?_
  refine (ofNative (.items _ _)).bind fun rows => ?_
  refine (mapM (fun v => ofNative (.tableRow name v)) _).bind fun rows => ?_
  exact request (.table _)

/-- Branches of a chain are orderly if conditions and bodies are. -/
theorem branches {style : ChainStyle} {count : Nat} {hasElse : Bool}
    {condition : Value → EvalM String} {body : Value → EvalM Unit}
    (hCondition : ∀ v, Orderly scripts here Any (condition v))
    (hBody : ∀ v, Orderly scripts here Any (body v)) (index : Nat) (items : List Value) :
    Orderly scripts here Any
      (Emission.branches style count hasElse condition body index items) := by
  induction items generalizing index with
  | nil => exact .pure trivial
  | cons v rest ih =>
      refine (hCondition v).bindAny fun text => ?_
      exact ((hBody v).withScope _).bindAny fun _ => ih (index + 1)

/-- A chain is orderly if conditions, bodies and what is done otherwise are. -/
theorem chain {style : ChainStyle} {condition : Value → EvalM String} {body : Value → EvalM Unit}
    {items : List Value} {otherwise : Option (EvalM Unit)}
    (hCondition : ∀ v, Orderly scripts here Any (condition v))
    (hBody : ∀ v, Orderly scripts here Any (body v))
    (hOtherwise : ∀ action ∈ otherwise, Orderly scripts here Any action) :
    Orderly scripts here Any
      (Emission.chain Stop.ofRefusal style items condition body otherwise) := by
  cases otherwise with
  | none => exact branches hCondition hBody 0 items
  | some action =>
      have hAction := hOtherwise action rfl
      unfold Emission.chain
      dsimp only
      split
      · exact .fail _
      · refine (branches hCondition hBody 0 items).bindAny fun _ => ?_
        exact .ite hAction (hAction.withScope _)

theorem conditions (h : OrderlyLevel scripts ev) :
    OrderlyMethod scripts here (Generator.conditions ev) := by
  unfold Generator.conditions
  refine (ofNative (.required _)).bind fun given => (ofNative (.items _ given)).bind fun items => ?_
  refine (ofNative (.optional _)).bind fun style => ?_
  refine (ofNative (.chainStyle style)).bind fun style => ?_
  refine (ofNative (.required _)).bind fun condition => (ofNative (.required _)).bind fun body => ?_
  refine (ofNative (.optional _)).bind fun otherwise => ?_
  refine lift (chain (fun v => ?_) (fun v => discarded h body [v]) fun action hAction => ?_)
  · refine (h.callWith condition [v]).bindAny fun answer => ?_
    split
    · exact .pure trivial
    · exact .cTextOf _
  · split at hAction
    · cases hAction
    · cases hAction
    · cases hAction
      exact discarded h _ []

/-- The method for sections is orderly, as the call of its body is. -/
theorem sectioned (h : OrderlyLevel scripts ev) :
    OrderlyMethod scripts here (Generator.sectioned ev) := by
  unfold Generator.sectioned
  refine (ofNative (.required _)).bind fun label => (ofNative (.text _ label)).bind fun label => ?_
  refine (ofNative (.required _)).bind fun body => ?_
  exact lift ((discarded h body []).withSection _)

/-- Every method of the generator is orderly; the cases are the methods one by one. -/
theorem run (h : OrderlyLevel scripts ev) (method : String) :
    OrderlyMethod scripts here (Generator.run ev method) := by
  unfold Generator.run
  split
  · exact line
  · exact write fun e => e.file_blank
  · exact enter h
  · exact enums h
  · exact define
  · exact lookUpTable
  · exact conditions h
  · exact sectioned h
  · exact ofNative (.fail _)

end OrderlyMethod

/-- A call of the generator leaves its frame, and failures inside of it are traced there. -/
theorem OrderlyLevel.generate (h : OrderlyLevel scripts ev) (method : String) (args : Args) :
    Orderly scripts here Any (Generator.call ev method args) := by
  refine .withNative _ ((OrderlyMethod.run h method args).bindAny ?_)
  rintro ⟨⟨⟩, rest⟩
  dsimp only
  split
  · exact .fail _
  · exact .pure trivial

/-- With any fuel the evaluator leaves what it enters. -/
theorem orderlyLevel (scripts : Scripts) (fuel : Nat) : OrderlyLevel scripts (level fuel) := by
  induction fuel with
  | zero =>
      constructor
      · exact fun _ _ _ _ _ => .outOfFuel
      · exact fun _ _ _ _ _ => .outOfFuel
      · exact fun _ _ _ => .outOfFuel
  | succ fuel ih =>
      constructor
      · exact fun _ _ _ hBody hExpr => .evalExpr ih hBody ih.generate hExpr
      · exact fun _ _ _ hBody hStmt => .runStmt ih hBody hStmt
      · exact fun _ function args => .callValue ih function args

/-- The machine is between two statements of the top level of a script. -/
structure AtTop (scripts : Scripts) (unit : Nat) (m : Machine) : Prop where
  functions : FunctionsFit scripts m.store
  frames : ∃ f, m.frames = [f] ∧ f.site = .unit unit ∧ f.label = none
  unit : m.unit = unit
  loops : m.loops = 0

def topFrame (unit line : Nat) : Frame := { site := .unit unit, line, label := none }

/-- What comes of statements of the top level of a script. -/
def LeavesTop (scripts : Scripts) (unit : Nat) (m : Machine) :
    EStateM.Result Stop Machine Flow → Prop
  | .ok flow m' => AtTop scripts unit m' ∧ fileOf m' = fileOf m ∧ flow.FitsLoop false
  | .error stop m' => FunctionsFit scripts m'.store ∧ fileOf m' = fileOf m ∧
      Told scripts (topFrame unit 0) [] (stop.traced m'.frames)

section

variable {unit : Nat} {program : Program} {m : Machine} {s : Stmt}

theorem LeavesTop.before {m' : Machine} {r : EStateM.Result Stop Machine Flow}
    (h : LeavesTop scripts unit m' r) (hFile : fileOf m' = fileOf m) :
    LeavesTop scripts unit m r := by
  cases r with
  | ok flow m'' => exact ⟨h.1, h.2.1.trans hFile, h.2.2⟩
  | error stop m'' => exact ⟨h.1, h.2.1.trans hFile, h.2.2⟩

/-- A list of globals never fails. -/
theorem leavesTop_globals (hTop : AtTop scripts unit m) (hGlobals : s.isGlobals = true) :
    LeavesTop scripts unit m (runStmt ev s m) := by
  cases s with
  | globals span names =>
      obtain ⟨f, hFrames, hSite, hLabel⟩ := hTop.frames
      have hRun : runStmt ev (.globals span names) m = .ok .normal { m with
          store := names.foldl (fun s name => m.env.declareGlobal s name.name) m.store
          frames := [f.atLine span.start.line] } := by
        unfold runStmt
        change EStateM.bind (mark span) _ m = _
        rw [EStateM.bind, Orderly.mark_eq hFrames]
        rfl
      have hMoved : f.atLine span.start.line = { f with line := span.start.line } := by
        simp [Frame.atLine, hSite]
      rw [hRun, hMoved]
      refine ⟨⟨?_, ⟨_, rfl, hSite, hLabel⟩, hTop.unit, hTop.loops⟩, rfl, trivial⟩
      intro closure hClosure
      exact hTop.functions closure
        (Orderly.functions_declareGlobals m.env names m.store ▸ hClosure)
  | _ => cases hGlobals

/-- Where a statement starts does not depend on the line that the frame was at. -/
theorem runStmt_eq_moved {f : Frame} (hFrames : m.frames = [f]) {number : Nat}
    (hSite : f.site = .unit number) :
    runStmt ev s m =
      runStmt ev s { m with frames := [{ f with line := s.span.start.line }] } := by
  unfold runStmt
  change EStateM.bind (mark s.span) _ m = EStateM.bind (mark s.span) _ { m with frames := _ }
  rw [EStateM.bind, EStateM.bind, Orderly.mark_eq hFrames, Orderly.mark_eq rfl]
  simp [Frame.atLine, hSite]

/-- Any other statement starts with a line of its own. -/
theorem leavesTop_runStmt (h : OrderlyLevel scripts ev) (hScript : scripts unit = some program)
    (hStmt : s ∈ program.stmts) (hTop : AtTop scripts unit m) (hGlobals : s.isGlobals = false) :
    LeavesTop scripts unit m (runStmt ev s m) := by
  obtain ⟨f, hFrames, hSite, hLabel⟩ := hTop.frames
  have hHas : (Body.top unit).HasNode scripts (.stmt s) :=
    ⟨program, hScript, s, hStmt, hGlobals, .refl _⟩
  let frame : Frame := { f with line := s.span.start.line }
  have hShows : frame.StandsFor scripts (.top unit) := ⟨hSite, hLabel, _, hHas, rfl⟩
  have hReady : Ready scripts { body := some (.top unit) } { m with frames := [frame] } := by
    refine ⟨?_, hTop.functions, ?_, fun _ => hTop.loops⟩
    · rintro g (_ | ⟨_, ⟨⟩⟩)
      exact .inr ⟨_, hShows⟩
    · rintro _ ⟨⟩
      exact ⟨hTop.unit, _, rfl, hShows⟩
  have hLeaves := Orderly.runStmt h rfl hHas _ hReady
  rw [runStmt_eq_moved hFrames hSite]
  cases hEnd : runStmt ev s { m with frames := [frame] } with
  | ok flow m' =>
      rw [hEnd] at hLeaves
      obtain ⟨hRestores, hLater, hFlow⟩ := hLeaves
      obtain ⟨g, hg, hSame, hSame'⟩ := outline_cons_iff.1 hRestores.frames
      exact ⟨⟨hLater.functions, ⟨g, hg, hSame.trans hSite, hSame'.trans hLabel⟩,
        hRestores.unit.trans hTop.unit, hRestores.loops.trans hTop.loops⟩, hRestores.file, hFlow⟩
  | error stop m' =>
      rw [hEnd] at hLeaves
      obtain ⟨hRestores, hLater, hTraced⟩ := hLeaves
      exact ⟨hLater.functions, hRestores.file,
        (hTraced.leave hRestores.frames hLater.frames).like hSite hLabel⟩

/-- Whatever its fuel is, the evaluator leaves a statement of a top level. -/
theorem leavesTop_stmt (hScript : scripts unit = some program) (hStmt : s ∈ program.stmts)
    (hTop : AtTop scripts unit m) (fuel : Nat) :
    LeavesTop scripts unit m ((level fuel).stmt s m) := by
  cases fuel with
  | zero => exact ⟨hTop.functions, rfl, trivial⟩
  | succ fuel =>
      cases hGlobals : s.isGlobals with
      | true => exact leavesTop_globals hTop hGlobals
      | false => exact leavesTop_runStmt (orderlyLevel scripts fuel) hScript hStmt hTop hGlobals

/-- Statements of the top level leave the machine at the top level, and their failures are told
there. -/
theorem leavesTop_stmts (hScript : scripts unit = some program) {stmts : List Stmt}
    (hStmts : ∀ s ∈ stmts, s ∈ program.stmts) (hTop : AtTop scripts unit m) (fuel : Nat) :
    LeavesTop scripts unit m ((level fuel).stmts stmts m) := by
  induction stmts generalizing m with
  | nil => exact ⟨hTop, rfl, trivial⟩
  | cons s rest ih =>
      have hFirst : LeavesTop scripts unit m ((level fuel).stmt s m) :=
        leavesTop_stmt hScript (hStmts s List.mem_cons_self) hTop fuel
      change LeavesTop scripts unit m (EStateM.bind ((level fuel).stmt s) _ m)
      rw [EStateM.bind]
      cases hRun : (level fuel).stmt s m with
      | error stop m' =>
          rw [hRun] at hFirst
          exact hFirst
      | ok flow m' =>
          rw [hRun] at hFirst
          obtain ⟨hNext, hFile, hFlow⟩ := hFirst
          cases flow with
          | normal =>
              have hRest := ih (fun t ht => hStmts t (List.mem_cons_of_mem _ ht)) hNext
              exact hRest.before hFile
          | _ => exact ⟨hNext, hFile, hFlow⟩

def LeavesScript (scripts : Scripts) (unit : Nat) (m : Machine) :
    EStateM.Result Stop Machine Unit → Prop
  | .ok () m' => FunctionsFit scripts m'.store ∧ fileOf m' = fileOf m
  | .error stop m' => FunctionsFit scripts m'.store ∧ fileOf m' = fileOf m ∧
      Told scripts (topFrame unit 0) [] stop

/-- A script leaves the file alone, its functions are those of the scripts, and if it fails, the
outermost frame that it tells is its own top level. -/
theorem leaves_runProgram (hScript : scripts unit = some program)
    (hFunctions : FunctionsFit scripts m.store) (hFrames : m.frames = []) (hLoops : m.loops = 0)
    (fuel : Nat) (env : Env) :
    LeavesScript scripts unit m (runProgram fuel program unit env m) := by
  let inside : Machine := { m with unit, env, frames := [topFrame unit program.span.start.line] }
  have hTop : AtTop scripts unit inside :=
    ⟨hFunctions, ⟨_, rfl, rfl, rfl⟩, rfl, hLoops⟩
  have hLeaves : LeavesTop scripts unit inside ((level fuel).stmts program.stmts inside) :=
    leavesTop_stmts hScript (fun _ => id) hTop fuel
  have hRun : runProgram fuel program unit env m =
      withFrame (topFrame unit program.span.start.line)
        (runTop (level fuel) program.stmts) { m with unit, env } := rfl
  rw [hRun, withFrame, hFrames]
  cases hEnd : (level fuel).stmts program.stmts inside with
  | error stop m' =>
      rw [hEnd] at hLeaves
      have hStopped : runTop (level fuel) program.stmts inside = .error stop m' := by
        change EStateM.bind _ _ inside = _
        rw [EStateM.bind, hEnd]
      simp only [inside] at hStopped
      simp only [hStopped]
      exact hLeaves
  | ok flow m' =>
      rw [hEnd] at hLeaves
      obtain ⟨hLater, hFile, hFlow⟩ := hLeaves
      have hDone : runTop (level fuel) program.stmts inside = .ok () m' := by
        change EStateM.bind _ _ inside = _
        rw [EStateM.bind, hEnd]
        cases flow with
        | normal => rfl
        | result v => rfl
        | _ => cases hFlow
      simp only [inside] at hDone
      simp only [hDone]
      exact ⟨hLater.functions, hFile⟩

end

end Metagen.Eval
