import Metagen.Proofs.Run.Scripts

/-! What a run does to its surroundings, in order. Surroundings whose files can all be written are
watched, and what is done to them is kept in a list. -/

namespace Metagen

open Eval Emission

/-- Something done to the surroundings of a run. -/
inductive Effect where
  | before (d : Directive)
  | makeDirectory (path : String)
  | write (path text : String)
  | after (d : Directive) (text : Option String)

namespace Effect

/-- Writing a file, and making the directory that it is in. -/
def output (path text : String) : List Effect :=
  ((Path.parent? path).map makeDirectory).toList ++ [write path text]

/-- The parts of the path of a file that is written. -/
def fileParts? : Effect → Option (List String)
  | write path _ => some (Path.parts path)
  | _ => none

theorem fileParts_output (path text : String) :
    (output path text).filterMap fileParts? = [Path.parts path] := by
  unfold output
  cases Path.parent? path with
  | none => rfl
  | some dir => rfl

/-- The file that the scripts are shown in is written once, if there is one. -/
theorem fileParts_dump (path? : Option String) (text : String) :
    (path?.elim [] (output · text)).filterMap fileParts? = (path?.map Path.parts).toList := by
  cases path? with
  | none => rfl
  | some path => exact fileParts_output path text

end Effect

section

variable {World α β : Type}

theorem bind_apply_eq {State : Type} {first : StateM State α} {s s' : State} {a : α}
    (h : first s = (a, s')) (second : α → StateM State β) :
    (first >>= second) s = second a s' := by
  change second (first s).1 (first s).2 = _
  rw [h]

/-- Do something, and keep in mind what was done. -/
def watching (action : StateM World α) (done : List Effect) : StateM (World × List Effect) α :=
  fun (w, effects) => ((action w).1, ((action w).2, effects ++ done))

def Host.watched (host : Host (StateM World)) : Host (StateM (World × List Effect)) where
  read path := watching (host.read path) []
  write path text := watching (host.write path text) [.write path text]
  makeDirectory path := watching (host.makeDirectory path) [.makeDirectory path]
  log line := watching (host.log line) []
  before d := watching (host.before d) [.before d]
  after d text := watching (host.after d text) [.after d text]
  time := watching host.time []
  timestamp := watching host.timestamp []
  clock := watching host.clock []

/-- All files can be written. -/
structure Host.WritesFiles (host : Host (StateM World)) : Prop where
  write : ∀ path text w, (host.write path text w).1 = true
  makeDirectory : ∀ path w, (host.makeDirectory path w).1 = true

/-- The action ends in this way, and does this in between. -/
def Does (action : ExceptT Failure (StateM (World × List Effect)) α) (w : World)
    (outcome : Except Failure α) (w' : World) (done : List Effect) : Prop :=
  ∀ effects, action.run.run (w, effects) = (outcome, (w', effects ++ done))

namespace Does

variable {first : ExceptT Failure (StateM (World × List Effect)) α}
  {second : α → ExceptT Failure (StateM (World × List Effect)) β} {w w' w'' : World}
  {done more : List Effect}

theorem pure (a : α) (w : World) :
    Does (Pure.pure a : ExceptT Failure (StateM (World × List Effect)) α) w (.ok a) w [] := by
  intro effects
  rw [List.append_nil]
  rfl

theorem failWith (failure : Failure) (w : World) :
    Does (Run.failWith failure : ExceptT Failure (StateM (World × List Effect)) α) w
      (.error failure) w [] := by
  intro effects
  rw [List.append_nil]
  rfl

/-- What is done by actions in a row is done by the first one and then by the other. -/
theorem bind {a : α} {outcome : Except Failure β} (hFirst : Does first w (.ok a) w' done)
    (hSecond : Does (second a) w' outcome w'' more) :
    Does (first >>= second) w outcome w'' (done ++ more) := by
  intro effects
  rw [ExceptT.run_bind, StateT.run_bind, hFirst effects, ← List.append_assoc]
  exact hSecond _

/-- An action that fails ends what comes behind it, and what it has done is done. -/
theorem bindError {failure : Failure} (hFirst : Does first w (.error failure) w' done) :
    Does (first >>= second) w (.error failure) w' done := by
  intro effects
  rw [ExceptT.run_bind, StateT.run_bind, hFirst effects]
  rfl

/-- What surroundings are asked for is done. -/
theorem lift {action : StateM (World × List Effect) α} {a : α}
    (h : ∀ effects, action (w, effects) = (a, (w', effects ++ done))) :
    Does (liftM action) w (.ok a) w' done := by
  intro effects
  change ((Except.ok (action (w, effects)).1 : Except Failure α), (action (w, effects)).2) = _
  rw [h effects]

theorem watch (action : StateM World α) (done : List Effect) (w : World) :
    Does (liftM (watching action done)) w (.ok (action w).1) (action w).2 done :=
  lift fun _ => rfl

end Does

end

namespace Run

variable {World : Type} {host : Host (StateM World)}

/-- Making the directory of a file comes before writing the file. -/
theorem does_output (hWritable : host.WritesFiles) (path text : String) (w : World) :
    ∃ w', Does (output host.watched path text) w (.ok ()) w' (Effect.output path text) := by
  have hWrite : ∀ w effects, host.watched.write path text (w, effects) =
      (true, ((host.write path text w).2, effects ++ [.write path text])) :=
    fun w _ => Prod.ext (hWritable.write path text w) rfl
  have hWritten : ∃ w', ∀ effects, host.watched.output path text (w, effects) =
      (true, (w', effects ++ Effect.output path text)) := by
    unfold Host.output Effect.output
    cases Path.parent? path with
    | none => exact ⟨_, hWrite w⟩
    | some dir =>
        refine ⟨(host.write path text (host.makeDirectory dir w).2).2, fun effects => ?_⟩
        have hMade : host.watched.makeDirectory dir (w, effects) =
            (true, ((host.makeDirectory dir w).2, effects ++ [.makeDirectory dir])) :=
          Prod.ext (hWritable.makeDirectory dir w) rfl
        calc (host.watched.makeDirectory dir >>= fun made =>
              if made then host.watched.write path text else pure false) (w, effects)
          _ = host.watched.write path text
              ((host.makeDirectory dir w).2, effects ++ [.makeDirectory dir]) := by
            rw [bind_apply_eq hMade, if_pos rfl]
          _ = _ := (hWrite _ _).trans (by rw [List.append_assoc]; rfl)
  obtain ⟨w', hWritten⟩ := hWritten
  refine ⟨w', ?_⟩
  rw [← List.append_nil (Effect.output path text)]
  exact (Does.lift hWritten).bind (Does.pure () w')

/-- Showing lines has no effect that counts. -/
theorem does_showLines (host : Host (StateM World)) (lines : List String) (w : World) :
    ∃ w', Does (showLines host.watched lines) w (.ok ()) w' [] := by
  unfold showLines
  induction lines generalizing w with
  | nil => exact ⟨w, Does.pure () w⟩
  | cons line rest ih =>
      obtain ⟨w', hRest⟩ := ih (host.log line w).2
      exact ⟨w', (Does.watch (host.log line) [] w).bind hRest⟩

end Run

/-- A directive that has run to its end. -/
structure FinishedDirective where
  directive : Directive
  generated : Option Generated
  elapsed : Nat

namespace FinishedDirective

/-- The directive is announced, its text is written to the file that it generates, if it does
generate one, and then its end is announced with the text. -/
def effects (c : FinishedDirective) : List Effect :=
  .before c.directive :: c.generated.elim [] (fun file => Effect.output file.path file.text)
    ++ [.after c.directive (c.generated.map (·.text))]

def entry (c : FinishedDirective) : ManifestEntry :=
  RunState.entry c.directive c.generated c.elapsed

end FinishedDirective

/-- Plans do not let two directives generate one file. -/
theorem not_sharesOutput_of_ofSources {dir : String} {sources : List SourceUnit} {p : Plan}
    {warnings rest : Array String} (h : Plan.ofSources dir sources warnings = .ok p rest) :
    ¬ SharesOutput p.directives := by
  obtain ⟨ds, after, -, hMade⟩ := Plan.scanned_of_ofSources h
  obtain ⟨hConsistent, hResolved⟩ := resolved_of_resolve (Plan.parts_of_ofDirectives hMade).1
  -- Completed directives include what they did before.
  have hBefore : ∀ (i : Nat) (e : Directive) (a : Include), p.directives[i]? = some e →
      e.include? = some a → ∃ d, ds[i]? = some d ∧ d.include? = some a := by
    intro i e a he ha
    have hi : i < ds.length := hResolved.length_eq ▸ (List.getElem?_eq_some_iff.1 he).1
    have hd : ds[i]? = some ds[i] := List.getElem?_eq_getElem hi
    obtain ⟨added, rfl, -⟩ := hResolved.completes i _ _ hd he
    exact ⟨ds[i], hd, ha⟩
  rintro ⟨i, j, d, e, a, b, hij, hi, hj, ha, hb, hEq⟩
  obtain ⟨d', hi', ha'⟩ := hBefore i d a hi ha
  obtain ⟨e', hj', hb'⟩ := hBefore j e b hj hb
  exact hConsistent.outputs ⟨i, j, d', e', a, b, hij, hi', hj', ha', hb', hEq⟩

/-- A directive of the plan generates the file with this path. Paths with the same parts name the
same file. -/
def Plan.GeneratesFile (plan : Plan) (path : String) : Prop :=
  ∃ d ∈ plan.directives, ∃ a, d.include? = some a ∧ Path.parts a.path = Path.parts path

/-- The sources have no plan: scanning, resolving, scheduling or compiling fails. -/
inductive Unplanned (dir : String) (sources : List SourceUnit) (d : Diagnostic) : Prop where
  | scanning {warnings : Array String} (failed : scan dir sources #[] = .error d warnings)
  | resolving {ds : List Directive} {warnings : Array String}
      (scanned : scan dir sources #[] = .ok ds warnings) (failed : resolve ds = .error d)
  | scheduling {ds after : List Directive} {warnings : Array String} {g : DependencyGraph}
      (scanned : scan dir sources #[] = .ok ds warnings) (resolved : resolve ds = .ok (after, g))
      (failed : schedule after = .error d)
  | compiling {ds after : List Directive} {warnings : Array String} {g : DependencyGraph}
      {order : List Nat} (scanned : scan dir sources #[] = .ok ds warnings)
      (resolved : resolve ds = .ok (after, g)) (scheduled : schedule after = .ok order)
      (failed : after.mapM (·.compile) = .error d)

/-- Sources have no plan exactly if scanning, resolving, scheduling or compiling them fails with
this diagnostic. -/
theorem unplanned_iff (dir : String) (sources : List SourceUnit) (d : Diagnostic) :
    Unplanned dir sources d ↔
      ∃ warnings, Plan.ofSources dir sources #[] = .error d warnings := by
  constructor
  · intro h
    unfold Plan.ofSources
    change ∃ warnings, EStateM.bind _ _ _ = _
    unfold EStateM.bind
    cases h with
    | scanning hScan => exact ⟨_, by rw [hScan]⟩
    | @resolving ds warnings hScan hResolve =>
        refine ⟨warnings, ?_⟩
        rw [hScan]
        simp only [Plan.ofDirectives, hResolve, bind, Except.bind]
        rfl
    | @scheduling ds after warnings g hScan hResolve hSchedule =>
        refine ⟨warnings, ?_⟩
        rw [hScan]
        simp only [Plan.ofDirectives, hResolve, bind, Except.bind, hSchedule]
        rfl
    | @compiling ds after warnings g order hScan hResolve hSchedule hCompile =>
        refine ⟨warnings, ?_⟩
        rw [hScan]
        simp only [Plan.ofDirectives, hResolve, bind, Except.bind, hSchedule, hCompile]
        rfl
  · rintro ⟨warnings, h⟩
    unfold Plan.ofSources at h
    change EStateM.bind _ _ _ = _ at h
    unfold EStateM.bind at h
    cases hScan : scan dir sources #[] with
    | error other rest =>
        rw [hScan] at h
        cases h
        exact .scanning hScan
    | ok ds rest =>
        rw [hScan] at h
        cases hResolve : resolve ds with
        | error other =>
            simp only [Plan.ofDirectives, hResolve, bind, Except.bind] at h
            cases h
            exact .resolving hScan hResolve
        | ok result =>
            obtain ⟨after, g⟩ := result
            cases hSchedule : schedule after with
            | error other =>
                simp only [Plan.ofDirectives, hResolve, bind, Except.bind, hSchedule] at h
                cases h
                exact .scheduling hScan hResolve hSchedule
            | ok order =>
                cases hUnits : after.mapM (·.compile) with
                | error other =>
                    simp only [Plan.ofDirectives, hResolve, bind, Except.bind, hSchedule,
                      hUnits] at h
                    cases h
                    exact .compiling hScan hResolve hSchedule hUnits
                | ok units =>
                    simp only [Plan.ofDirectives, hResolve, bind, Except.bind, hSchedule,
                      hUnits] at h
                    cases h

namespace Run

/-- From one state to the next a directive runs to its end: its script ends, all that it defines is
recorded, and what it has generated is for the file that it includes. -/
inductive RunsToEnd (fuel : Nat) (plan : Plan) (i : Nat) (st : RunState) (c : FinishedDirective) :
    RunState → Prop where
  | intro {unit : CompiledUnit} {ran : RunState} {symbols : SymbolTable} {emitter : Emitter}
      {time : String}
      (item : plan.item? i = some (c.directive, unit))
      (script : (st.start c.directive).2.evaluate fuel unit i (st.start c.directive).1 =
        (.ok (), ran))
      (recorded : SymbolTable.record c.directive (st.start c.directive).1 ran.store ran.symbols =
        .ok () symbols)
      (generated : ran.emitter.finishAt time = (c.generated, emitter))
      (target : c.generated.map (·.path) = c.directive.include?.map (·.path)) :
      RunsToEnd fuel plan i st c
        { ran with symbols, emitter, entries := st.entries ++ [c.entry] }

/-- Directives run to their ends, one after the other. -/
inductive AllRunToEnd (fuel : Nat) (plan : Plan) :
    RunState → List Nat → List FinishedDirective → RunState → Prop where
  | nil {st : RunState} : AllRunToEnd fuel plan st [] [] st
  | cons {st middle st' : RunState} {i : Nat} {rest : List Nat} {c : FinishedDirective}
      {more : List FinishedDirective} (first : RunsToEnd fuel plan i st c middle)
      (others : AllRunToEnd fuel plan middle rest more st') :
      AllRunToEnd fuel plan st (i :: rest) (c :: more) st'

/-- A directive does not run to its end: its script fails or runs too long, or something that it
defines is not bound when its script has ended. -/
inductive StopsAt (fuel : Nat) (plan : Plan) (i : Nat) (st : RunState) (d : Directive) :
    Failure → Prop where
  | failed {unit : CompiledUnit} {ran : RunState} {error : EvalError}
      (item : plan.item? i = some (d, unit))
      (script : (st.start d).2.evaluate fuel unit i (st.start d).1 =
        (.error (.failed error), ran)) :
      StopsAt fuel plan i st d (.diagnostic (plan.runtimeDiagnostic error))
  | outOfFuel {unit : CompiledUnit} {ran : RunState}
      (item : plan.item? i = some (d, unit))
      (script : (st.start d).2.evaluate fuel unit i (st.start d).1 = (.error .outOfFuel, ran)) :
      StopsAt fuel plan i st d .outOfFuel
  | unbound {unit : CompiledUnit} {ran : RunState} {decl : Declaration} {symbols : SymbolTable}
      (item : plan.item? i = some (d, unit))
      (script : (st.start d).2.evaluate fuel unit i (st.start d).1 = (.ok (), ran))
      (missing : SymbolTable.record d (st.start d).1 ran.store ran.symbols = .error decl symbols) :
      StopsAt fuel plan i st d (.diagnostic (unboundDiagnostic d decl))

variable {fuel : Nat} {plan : Plan} {st st' : RunState} {i : Nat} {d : Directive}
  {World : Type} {host : Host (StateM World)}

/-- The path of a finished file is that of the directive's target; without a target there is no
file. -/
theorem finishAt_path (e : Emitter) (time : String) :
    (e.finishAt time).1.map (·.path) = e.target.map (·.path) := by
  unfold Emitter.finishAt
  cases e.target <;> rfl

/-- What a directive has generated is written before its end is announced. -/
theorem does_finish (hWritable : host.WritesFiles) (d : Directive) (st : RunState) (started : Nat)
    (w : World) : ∃ (c : FinishedDirective) (time : String) (w' : World), c.directive = d ∧
      (st.emitter.finishAt time).1 = c.generated ∧
      Does (finish host.watched d st started) w
        (.ok { st with
          emitter := (st.emitter.finishAt time).2, entries := st.entries ++ [c.entry] })
        w' (c.effects.drop 1) := by
  let time := (host.time w).1
  have hTail : ∀ (generated : Option Generated) (emitter : Emitter) (w : World),
      ∃ (elapsed : Nat) (w' : World), @Does World RunState (do
        host.watched.after d (generated.map (·.text))
        let stopped ← host.watched.clock
        return { st with
          emitter, entries := st.entries ++ [RunState.entry d generated (stopped - started)] }) w
        (.ok { st with
          emitter, entries := st.entries ++ [RunState.entry d generated elapsed] }) w'
        [.after d (generated.map (·.text))] := by
    intro generated emitter w
    let w₁ := (host.after d (generated.map (·.text)) w).2
    refine ⟨(host.clock w₁).1 - started, (host.clock w₁).2, ?_⟩
    exact (Does.watch (host.after d _) [.after d _] w).bind
      ((Does.watch host.clock [] w₁).bind (Does.pure _ _))
  unfold finish
  generalize st.emitter.finishAt = finishAt
  cases hFinish : finishAt time with
  | mk generated emitter =>
      cases generated with
      | none =>
          obtain ⟨elapsed, w', hAfter⟩ := hTail none emitter (host.time w).2
          refine ⟨⟨d, none, elapsed⟩, time, w', rfl, by rw [hFinish], ?_⟩
          refine (Does.watch host.time [] w).bind ?_
          rw [show finishAt (host.time w).1 = _ from hFinish]
          exact hAfter
      | some file =>
          obtain ⟨w₁, hWritten⟩ := does_output hWritable file.path file.text (host.time w).2
          obtain ⟨elapsed, w', hAfter⟩ := hTail (some file) emitter w₁
          refine ⟨⟨d, some file, elapsed⟩, time, w', rfl, by rw [hFinish], ?_⟩
          refine (Does.watch host.time [] w).bind ?_
          rw [show finishAt (host.time w).1 = _ from hFinish]
          exact hWritten.bind hAfter

/-- A directive that is run is announced; then it runs to its end, or nothing more happens. -/
theorem does_execute (hWritable : host.WritesFiles) (fuel : Nat) {unit : CompiledUnit}
    (hItem : plan.item? i = some (d, unit)) (hFunctions : FunctionsFit plan.scripts st.store)
    (w : World) :
    (∃ (c : FinishedDirective) (st' : RunState) (w' : World), RunsToEnd fuel plan i st c st' ∧
      FunctionsFit plan.scripts st'.store ∧
      Does (execute host.watched fuel plan st i) w (.ok st') w' c.effects) ∨
    ∃ (failure : Failure) (w' : World), StopsAt fuel plan i st d failure ∧
      Does (execute host.watched fuel plan st i) w (.error failure) w' [.before d] := by
  have hEvaluates := RunState.evaluates hItem hFunctions fuel
  unfold execute
  simp only [hItem]
  cases hRan : (st.start d).2.evaluate fuel unit i (st.start d).1 with
  | mk outcome ran =>
      rw [hRan] at hEvaluates
      have hClock := Does.watch host.clock [] w
      have hBefore := Does.watch (host.before d) [.before d] (host.clock w).2
      obtain ⟨w', hShown⟩ := does_showLines host
        (ran.store.log.toList.drop (st.start d).2.store.log.size)
        (host.before d (host.clock w).2).2
      cases outcome with
      | error stop =>
          right
          cases stop with
          | failed error =>
              refine ⟨_, w', .failed hItem hRan, hClock.bind (hBefore.bind (hShown.bind ?_))⟩
              exact (Does.failWith _ _).bindError
          | outOfFuel =>
              refine ⟨_, w', .outOfFuel hItem hRan, hClock.bind (hBefore.bind (hShown.bind ?_))⟩
              exact (Does.failWith _ _).bindError
      | ok done =>
          cases hRecord : SymbolTable.record d (st.start d).1 ran.store ran.symbols with
          | error decl symbols =>
              right
              refine ⟨_, w', .unbound hItem hRan hRecord,
                hClock.bind (hBefore.bind (hShown.bind ((Does.pure () w').bind ?_)))⟩
              exact Does.failWith _ _
          | ok recorded symbols =>
              cases recorded
              left
              obtain ⟨c, time, w'', rfl, hGenerated, hFinish⟩ :=
                does_finish hWritable d { ran with symbols } (host.clock w).1 w'
              have hTarget : c.generated.map (·.path) = c.directive.include?.map (·.path) := by
                rw [← hGenerated, finishAt_path, hEvaluates.target, Option.map_map]
                rfl
              have hRuns := RunsToEnd.intro hItem hRan hRecord (Prod.ext hGenerated rfl) hTarget
              rw [← hEvaluates.entries] at hRuns
              refine ⟨c, _, w'', hRuns, hEvaluates.functions,
                hClock.bind (hBefore.bind (hShown.bind ((Does.pure () w').bind ?_)))⟩
              exact hFinish

/-- Directives are run one after the other, up to the first that does not run to its end. -/
theorem does_executeAll (hWritable : host.WritesFiles) (fuel : Nat) {order : List Nat}
    (hItems : ∀ i ∈ order, ∃ d unit, plan.item? i = some (d, unit)) (st : RunState)
    (hFunctions : FunctionsFit plan.scripts st.store) (w : World) :
    ∃ done completed st' outcome w' rest, AllRunToEnd fuel plan st done completed st' ∧
      Does (order.foldlM (execute host.watched fuel plan) st) w outcome w'
        (completed.flatMap (·.effects) ++ rest) ∧
      (done = order ∧ outcome = .ok st' ∧ rest = [] ∨
        ∃ i more d failure, order = done ++ i :: more ∧ StopsAt fuel plan i st' d failure ∧
          outcome = .error failure ∧ rest = [.before d]) := by
  induction order generalizing st w with
  | nil => exact ⟨[], [], st, _, w, [], .nil, Does.pure st w, .inl ⟨rfl, rfl, rfl⟩⟩
  | cons i order ih =>
      obtain ⟨d, unit, hItem⟩ := hItems i List.mem_cons_self
      rcases does_execute hWritable fuel hItem hFunctions w with
        ⟨c, middle, w', hRuns, hFit, hDoes⟩ | ⟨failure, w', hStops, hDoes⟩
      · obtain ⟨done, completed, st', outcome, w'', rest, hAll, hRest, hEnd⟩ :=
          ih (fun j hj => hItems j (List.mem_cons_of_mem _ hj)) middle hFit w'
        refine ⟨i :: done, c :: completed, st', outcome, w'', rest, .cons hRuns hAll, ?_, ?_⟩
        · rw [List.foldlM_cons, List.flatMap_cons, List.append_assoc]
          exact hDoes.bind hRest
        · rcases hEnd with ⟨rfl, hOutcome⟩ | ⟨j, more, e, failure, rfl, hStops⟩
          · exact .inl ⟨rfl, hOutcome⟩
          · exact .inr ⟨j, more, e, failure, rfl, hStops⟩
      · refine ⟨[], [], st, _, w', [.before d], .nil, ?_,
          .inr ⟨i, order, d, failure, rfl, hStops, rfl, rfl⟩⟩
        rw [List.foldlM_cons]
        exact hDoes.bindError

/-- The manifest of a run has an entry for each directive that has run to its end, in their
order. -/
theorem AllRunToEnd.entries_eq {done : List Nat} {completed : List FinishedDirective}
    (h : AllRunToEnd fuel plan st done completed st') :
    st'.entries = st.entries ++ completed.map (·.entry) := by
  induction h with
  | nil => exact (List.append_nil _).symm
  | cons first others ih =>
      cases first
      rw [ih, List.append_assoc]
      rfl

/-- The directives that have run to their ends are those that were run. -/
theorem AllRunToEnd.directives_eq {done : List Nat} {completed : List FinishedDirective}
    (h : AllRunToEnd fuel plan st done completed st') :
    completed.map (fun c => some c.directive) = done.map (plan.directives[·]?) := by
  induction h with
  | nil => rfl
  | cons first others ih =>
      cases first with
      | intro item =>
          rw [List.map_cons, List.map_cons, ih, Plan.directive_of_item? item]

/-- What is written is for the files that the directives include. -/
theorem AllRunToEnd.fileParts_eq {done : List Nat} {completed : List FinishedDirective}
    (h : AllRunToEnd fuel plan st done completed st') :
    (completed.flatMap (·.effects)).filterMap Effect.fileParts? =
      done.filterMap fun i => plan.directives[i]?.bind fun d =>
        d.include?.map fun a => Path.parts a.path := by
  induction h with
  | nil => rfl
  | @cons st middle st' i rest c more first others ih =>
      have hParts : c.effects.filterMap Effect.fileParts? =
          (c.generated.map fun file => Path.parts file.path).toList := by
        unfold FinishedDirective.effects
        cases c.generated with
        | none => rfl
        | some file =>
            rw [List.filterMap_append, List.filterMap_cons_none rfl]
            exact congrArg (· ++ []) (Effect.fileParts_output file.path file.text)
      cases first with
      | intro item script recorded generated target =>
          have hTarget : c.generated.map (fun file => Path.parts file.path) =
              c.directive.include?.map fun a => Path.parts a.path := by
            have hEq := congrArg (Option.map Path.parts) target
            rw [Option.map_map, Option.map_map] at hEq
            exact hEq
          rw [List.flatMap_cons, List.filterMap_append, ih, hParts, hTarget, List.filterMap_cons,
            Plan.directive_of_item? item, Option.bind_some]
          cases c.directive.include? with
          | none => rfl
          | some a => rfl

/-- No file is written twice. -/
theorem AllRunToEnd.nodup_fileParts {done more : List Nat} {completed : List FinishedDirective}
    (h : AllRunToEnd fuel plan st done completed st') (hSound : plan.Sound)
    (hOrder : plan.order = done ++ more) (hOutputs : ¬ SharesOutput plan.directives) :
    ((completed.flatMap (·.effects)).filterMap Effect.fileParts?).Nodup := by
  have hNodup : done.Nodup :=
    (List.nodup_append.1 (hOrder ▸ hSound.order_perm.nodup_iff.2 List.nodup_range)).1
  rw [h.fileParts_eq]
  refine hNodup.filterMap fun i j parts hi hj => ?_
  obtain ⟨d, hd, hi⟩ := Option.bind_eq_some_iff.1 hi
  obtain ⟨e, he, hj⟩ := Option.bind_eq_some_iff.1 hj
  obtain ⟨a, ha, rfl⟩ := Option.map_eq_some_iff.1 hi
  obtain ⟨b, hb, hEq⟩ := Option.map_eq_some_iff.1 hj
  rcases Nat.lt_trichotomy i j with hLess | rfl | hLess
  · exact (hOutputs ⟨i, j, d, e, a, b, hLess, hd, he, ha, hb, hEq.symm⟩).elim
  · rfl
  · exact (hOutputs ⟨j, i, e, d, b, a, hLess, he, hd, hb, ha, hEq⟩).elim

/-- Unless the scripts are shown in a file that a directive generates, no file is written twice, the
one with the scripts included. -/
theorem AllRunToEnd.nodup_fileParts_dump {done more : List Nat} {completed : List FinishedDirective}
    (h : AllRunToEnd fuel plan st done completed st') (hSound : plan.Sound)
    (hOrder : plan.order = done ++ more) (hOutputs : ¬ SharesOutput plan.directives)
    {path? : Option String}
    (hApart : ∀ path ∈ path?, ¬ plan.GeneratesFile path) {rest : List Effect}
    (hRest : rest.filterMap Effect.fileParts? = []) (text : String) :
    ((path?.elim [] (Effect.output · text) ++ (completed.flatMap (·.effects) ++ rest)).filterMap
      Effect.fileParts?).Nodup := by
  have hFiles := h.nodup_fileParts hSound hOrder hOutputs
  rw [List.filterMap_append, List.filterMap_append, hRest, List.append_nil,
    Effect.fileParts_dump]
  refine List.nodup_append.2 ⟨?_, hFiles, ?_⟩
  · cases path? with
    | none => exact List.nodup_nil
    | some path => exact List.nodup_singleton _
  · rintro _ hDump _ hFile rfl
    obtain ⟨path, hPath, rfl⟩ := Option.map_eq_some_iff.1 (Option.mem_toList.1 hDump)
    rw [h.fileParts_eq] at hFile
    obtain ⟨i, -, hFile⟩ := List.mem_filterMap.1 hFile
    obtain ⟨d, hd, hFile⟩ := Option.bind_eq_some_iff.1 hFile
    obtain ⟨a, ha, hParts⟩ := Option.map_eq_some_iff.1 hFile
    exact hApart path hPath ⟨d, List.mem_of_getElem? hd, a, ha, hParts⟩

variable {options : Options} {sources : List SourceUnit} {warnings : Array String}

/-- Sources without a plan are not run. -/
theorem does_runSources_of_error {d : Diagnostic}
    (hPlan : Plan.ofSources options.outputDir sources #[] = .error d warnings) (w : World) :
    ∃ w', Does (runSources host.watched fuel options sources) w (.error (.diagnostic d)) w' [] := by
  obtain ⟨w', hShown⟩ := does_showLines host warnings.toList w
  refine ⟨w', ?_⟩
  unfold runSources checkScan
  rw [hPlan]
  exact (hShown.bind (Does.failWith _ w')).bindError

/-- Behind the scripts, if they are shown, comes what the directives of the plan do. -/
theorem does_runSources (hWritable : host.WritesFiles)
    (hPlan : Plan.ofSources options.outputDir sources #[] = .ok plan warnings) (w : World) :
    ∃ done completed st outcome w' rest,
      AllRunToEnd fuel plan { emitter := { receipt := options.receipt } } done completed st ∧
      Does (runSources host.watched fuel options sources) w outcome w'
        (options.dumpPath.elim [] (Effect.output · plan.dump) ++
          (completed.flatMap (·.effects) ++ rest)) ∧
      (done = plan.order ∧ outcome = .ok ⟨plan, st⟩ ∧ rest = [] ∨
        ∃ i more d failure, plan.order = done ++ i :: more ∧ StopsAt fuel plan i st d failure ∧
          outcome = .error failure ∧ rest = [.before d]) := by
  have hItems : ∀ i ∈ plan.order, ∃ d unit, plan.item? i = some (d, unit) := by
    intro i hi
    obtain ⟨d, unit, hItem, -⟩ := (Plan.sound_of_ofSources hPlan).exists_item hi
    exact ⟨d, unit, hItem⟩
  have hRuns : ∀ w₂, ∃ done completed st outcome w' rest,
      AllRunToEnd fuel plan { emitter := { receipt := options.receipt } } done completed st ∧
      Does (do return ⟨plan, ← executeAll host.watched fuel plan options.receipt⟩) w₂ outcome w'
        (completed.flatMap (·.effects) ++ rest) ∧
      (done = plan.order ∧ outcome = .ok (RunReport.mk plan st) ∧ rest = [] ∨
        ∃ i more d failure, plan.order = done ++ i :: more ∧ StopsAt fuel plan i st d failure ∧
          outcome = .error failure ∧ rest = [.before d]) := by
    intro w₂
    obtain ⟨done, completed, st, outcome, w', rest, hAll, hDoes, hEnd⟩ :=
      does_executeAll hWritable fuel hItems { emitter := { receipt := options.receipt } }
        (fun _ hClosure => (Array.not_mem_empty _ hClosure).elim) w₂
    rcases hEnd with ⟨rfl, rfl, rfl⟩ | ⟨i, more, d, failure, hOrder, hStops, rfl, rfl⟩
    · refine ⟨_, completed, st, .ok ⟨plan, st⟩, w', [], hAll, ?_, .inl ⟨rfl, rfl, rfl⟩⟩
      rw [← List.append_nil (_ ++ [])]
      exact hDoes.bind (Does.pure _ w')
    · exact ⟨done, completed, st, .error failure, w', _, hAll, hDoes.bindError,
        .inr ⟨i, more, d, failure, hOrder, hStops, rfl, rfl⟩⟩
  obtain ⟨w₁, hShown⟩ := does_showLines host warnings.toList w
  have hScan : Does (checkScan host.watched (Plan.ofSources options.outputDir sources)) w (.ok plan)
      w₁ [] := by
    unfold checkScan
    rw [hPlan]
    exact hShown.bind (Does.pure plan w₁)
  unfold runSources
  cases options.dumpPath with
  | none =>
      obtain ⟨done, completed, st, outcome, w', rest, hAll, hDoes, hEnd⟩ := hRuns w₁
      exact ⟨done, completed, st, outcome, w', rest, hAll, hScan.bind hDoes, hEnd⟩
  | some path =>
      obtain ⟨w₂, hWritten⟩ := does_output hWritable path plan.dump w₁
      obtain ⟨done, completed, st, outcome, w', rest, hAll, hDoes, hEnd⟩ := hRuns w₂
      exact ⟨done, completed, st, outcome, w', rest, hAll, hScan.bind (hWritten.bind hDoes), hEnd⟩

end Run

/-- What a run does to its surroundings. Without a plan it does nothing. With one it shows the
scripts if it is asked to, and then announces, writes and announces again for each directive that
runs to its end, in the order of the plan; it stops at the first one that does not, which is
announced only. No two directives write to one file; nor is a file written twice in the whole run,
unless the scripts are shown in a file that a directive generates. -/
theorem effects_of_run {World : Type} {host : Host (StateM World)} (hWritable : host.WritesFiles)
    (fuel : Nat) (options : Options) (sources : List SourceUnit) (w : World) :
    ∃ outcome w' effects,
      Does (Run.runSources host.watched fuel options sources) w outcome w' effects ∧
      (∀ d, Unplanned options.outputDir sources d →
        outcome = .error (.diagnostic d) ∧ effects = []) ∧
      ((¬ ∃ d, Unplanned options.outputDir sources d) →
        ∃ plan warnings done completed st rest,
          Plan.ofSources options.outputDir sources #[] = .ok plan warnings ∧
          effects = options.dumpPath.elim [] (fun path => Effect.output path plan.dump) ++
            completed.flatMap (·.effects) ++ rest ∧
          Run.AllRunToEnd fuel plan { emitter := { receipt := options.receipt } }
            done completed st ∧
          completed.map (fun c => some c.directive) = done.map (plan.directives[·]?) ∧
          st.entries = completed.map (·.entry) ∧
          ((completed.flatMap (·.effects)).filterMap Effect.fileParts?).Nodup ∧
          ((∀ path ∈ options.dumpPath, ¬ plan.GeneratesFile path) →
            (effects.filterMap Effect.fileParts?).Nodup) ∧
          (done = plan.order ∧ outcome = .ok ⟨plan, st⟩ ∧ rest = [] ∨
            ∃ i more d failure, plan.order = done ++ i :: more ∧
              Run.StopsAt fuel plan i st d failure ∧ outcome = .error failure ∧
              rest = [.before d])) := by
  cases hPlan : Plan.ofSources options.outputDir sources #[] with
  | error d warnings =>
      have hUnplanned := (unplanned_iff options.outputDir sources d).2 ⟨warnings, hPlan⟩
      obtain ⟨w', hDoes⟩ := Run.does_runSources_of_error hPlan w
      refine ⟨_, w', [], hDoes, fun other hOther => ?_, fun hNone => (hNone ⟨d, hUnplanned⟩).elim⟩
      obtain ⟨rest, hOther⟩ := (unplanned_iff _ _ _).1 hOther
      rw [hPlan] at hOther
      cases hOther
      exact ⟨rfl, rfl⟩
  | ok plan warnings =>
      have hSound := Plan.sound_of_ofSources hPlan
      have hOutputs := not_sharesOutput_of_ofSources hPlan
      obtain ⟨done, completed, st, outcome, w', rest, hAll, hDoes, hEnd⟩ :=
        Run.does_runSources hWritable hPlan w
      obtain ⟨more, hOrder, hRest⟩ : ∃ more, plan.order = done ++ more ∧
          rest.filterMap Effect.fileParts? = [] := by
        rcases hEnd with ⟨rfl, -, rfl⟩ | ⟨i, more, d, failure, hOrder, -, -, rfl⟩
        · exact ⟨[], (List.append_nil _).symm, rfl⟩
        · exact ⟨i :: more, hOrder, rfl⟩
      refine ⟨outcome, w', _, hDoes, fun d hFailed => ?_, fun _ => ?_⟩
      · obtain ⟨others, hFailed⟩ := (unplanned_iff _ _ _).1 hFailed
        rw [hPlan] at hFailed
        cases hFailed
      · exact ⟨plan, warnings, done, completed, st, rest, rfl, (List.append_assoc _ _ _).symm, hAll,
          hAll.directives_eq, hAll.entries_eq, hAll.nodup_fileParts hSound hOrder hOutputs,
          fun hApart => hAll.nodup_fileParts_dump hSound hOrder hOutputs hApart hRest plan.dump,
          hEnd⟩

/-- The three linked sources, with their scripts shown in a file that none of them generates. -/
theorem effects_of_run_linkedSources : Host.idle.WritesFiles ∧
    (¬ ∃ d, Unplanned "out" linkedSources d) ∧
    ∃ outcome w' effects,
      Does (Run.runSources Host.idle.watched 30
        { outputDir := "out", dumpPath := some "scripts.txt" } linkedSources) () outcome w'
        effects ∧
      ∃ plan warnings done completed st rest,
        Plan.ofSources "out" linkedSources #[] = .ok plan warnings ∧
        effects = Effect.output "scripts.txt" plan.dump ++ completed.flatMap (·.effects) ++ rest ∧
        Run.AllRunToEnd 30 plan {} done completed st ∧
        st.entries = completed.map (·.entry) ∧
        (∀ path ∈ some "scripts.txt", ¬ plan.GeneratesFile path) ∧
        (effects.filterMap Effect.fileParts?).Nodup ∧
        (done = plan.order ∧ outcome = .ok ⟨plan, st⟩ ∧ rest = [] ∨
          ∃ i more d failure, plan.order = done ++ i :: more ∧
            Run.StopsAt 30 plan i st d failure ∧ outcome = .error failure ∧
            rest = [.before d]) := by
  have hWritable : Host.idle.WritesFiles := ⟨fun _ _ _ => rfl, fun _ _ => rfl⟩
  have hPasses : Plan.passes linkedSources (fun plan => plan.directives.all fun d =>
      d.include?.all fun a => Path.parts a.path != Path.parts "scripts.txt") = true := by
    decide +kernel
  obtain ⟨plan, warnings, hPlan, hChecks⟩ := Plan.exists_of_passes hPasses
  have hApart : ∀ path ∈ some "scripts.txt", ¬ plan.GeneratesFile path := by
    rintro _ ⟨⟩ ⟨d, hd, a, ha, hParts⟩
    have hCheck := List.all_eq_true.1 hChecks d hd
    rw [ha] at hCheck
    exact bne_iff_ne.1 hCheck hParts
  have hPlanned : ¬ ∃ d, Unplanned "out" linkedSources d := by
    rintro ⟨d, hFailed⟩
    obtain ⟨rest, hFailed⟩ := (unplanned_iff _ _ _).1 hFailed
    rw [hPlan] at hFailed
    cases hFailed
  obtain ⟨outcome, w', effects, hDoes, -, hEffects⟩ :=
    effects_of_run hWritable 30 { outputDir := "out", dumpPath := some "scripts.txt" }
      linkedSources ()
  obtain ⟨_, warnings, done, completed, st, rest, hSame, hAll, hRuns, -, hEntries, -, hFiles,
    hEnd⟩ := hEffects hPlanned
  obtain ⟨rfl, rfl⟩ := EStateM.Result.ok.inj (hPlan.symm.trans hSame)
  exact ⟨hWritable, hPlanned, outcome, w', effects, hDoes, plan, _, done, completed, st,
    rest, hPlan, hAll, hRuns, hEntries, hApart, hFiles hApart, hEnd⟩

def generatingSources : List SourceUnit :=
  [.ofText "a.c" "#include \"x.h\"\n/* #meta\nMeta.line(\"a\")\n*/\n"]

/-- The scripts are shown in the file that the directive generates, and the directive then writes
over them. -/
theorem file_written_twice : ∃ plan warnings outcome w' effects,
    Plan.ofSources "out" generatingSources #[] = .ok plan warnings ∧ plan.GeneratesFile "out/x.h" ∧
      Does (Run.runSources Host.idle.watched 30
        { outputDir := "out", dumpPath := some "out/x.h" } generatingSources) () outcome w'
        effects ∧
      outcome.isOk = true ∧
      effects.filterMap Effect.fileParts? = [["out", "x.h"], ["out", "x.h"]] ∧
      ¬ (effects.filterMap Effect.fileParts?).Nodup := by
  have hWritable : Host.idle.WritesFiles := ⟨fun _ _ _ => rfl, fun _ _ => rfl⟩
  have hPasses : Plan.passes generatingSources (fun plan => plan.directives.any fun d =>
      d.include?.any fun a => Path.parts a.path == Path.parts "out/x.h") = true := by
    decide +kernel
  obtain ⟨plan, warnings, hPlan, hChecks⟩ := Plan.exists_of_passes hPasses
  obtain ⟨d, hd, hChecks⟩ := List.any_eq_true.1 hChecks
  obtain ⟨a, ha, hParts⟩ := (Option.any_eq_true _ _).1 hChecks
  let options : Options := { outputDir := "out", dumpPath := some "out/x.h" }
  have hPlanned : Plan.ofSources options.outputDir generatingSources #[] = .ok plan warnings :=
    hPlan
  obtain ⟨_, _, _, outcome, w', _, -, hDoes, -⟩ := Run.does_runSources hWritable hPlanned ()
  have hRun := hDoes []
  have hEnd : let ran := (Run.runSources Host.idle.watched 30
      { outputDir := "out", dumpPath := some "out/x.h" } generatingSources).run.run ((), [])
      ran.1.isOk = true ∧
        ran.2.2.filterMap Effect.fileParts? = [["out", "x.h"], ["out", "x.h"]] := by
    decide +kernel
  rw [hRun, List.nil_append] at hEnd
  refine ⟨plan, warnings, outcome, w', _, hPlan, ⟨d, hd, a, ha, eq_of_beq hParts⟩, hDoes, hEnd.1,
    hEnd.2, ?_⟩
  rw [hEnd.2]
  decide

end Metagen
