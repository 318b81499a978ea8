import Metagen.Proofs.Directive.Location
import Metagen.Proofs.Run.Scripts

/-! Where failures of scripts are in the sources. Each frame of a failure that is one of a script
names a line of the directive whose script holds the code of the frame, and the outermost frame is
the directive that was running. -/

namespace Metagen

open Eval

/-- Implicit imports change neither the lines of a directive nor its last one. -/
theorem Directive.SpansLines.withImplicit {d : Directive} {mode : ScanMode} {last : Nat}
    (h : d.SpansLines mode last) (names : List String) :
    (d.withImplicit names).SpansLines mode last :=
  ⟨h.header_pos, h.header_lt, h.last_eq, h.body_eq, h.script_ends, h.host_ends⟩

/-- What a directive that compiles is compiled to. -/
theorem Directive.of_compile {d : Directive} {unit : CompiledUnit} (h : d.compile = .ok unit) :
    unit.map = d.unitMap ∧ d.parsed.program = some unit.program := by
  cases hFirst : d.parsed.report.first? with
  | some problem =>
      rw [compile_of_first? hFirst] at h
      cases h
  | none =>
      unfold compile at h
      dsimp only at h
      rw [show (Script.parse _).report.first? = none from hFirst] at h
      cases hProgram : d.parsed.program with
      | none =>
          rw [show (Script.parse _).program = none from hProgram] at h
          cases h
      | some program =>
          rw [show (Script.parse _).program = some program from hProgram] at h
          cases h
          exact ⟨rfl, rfl⟩

/-- A frame without a label stands for the top level of its script. -/
theorem Eval.Frame.FitsScripts.standsFor_top {scripts : Scripts} {f : Frame}
    (h : f.FitsScripts scripts) {i : Nat}
    (hSite : f.site = .unit i) (hLabel : f.label = none) : f.StandsFor scripts (.top i) := by
  rcases h with hNative | ⟨body, hShows⟩
  · rw [hSite] at hNative
    cases hNative
  · cases body with
    | top unit =>
        obtain rfl : i = unit := Site.unit.inj (hSite.symm.trans hShows.site)
        exact hShows
    | function unit f =>
        have hNone := hLabel.symm.trans hShows.label
        cases hNone

namespace Plan

variable {dir : String} {sources : List SourceUnit} {plan : Plan} {warnings rest : Array String}
  {i : Nat} {d : Directive} {unit : CompiledUnit}

/-- The directives of a plan are placed in the sources as those that were found. -/
theorem exists_spansLines (hPlan : ofSources dir sources warnings = .ok plan rest)
    (hd : d ∈ plan.directives) :
    ∃ source ∈ sources, d.file = source.file ∧ (∃ last, d.SpansLines source.mode last) ∧
      ∀ name ∈ d.definedNames, Header.nameFault? name = none := by
  obtain ⟨ds, after, hScan, hMade⟩ := scanned_of_ofSources hPlan
  obtain ⟨hResolve, -, -⟩ := parts_of_ofDirectives hMade
  obtain ⟨-, hResolved⟩ := resolved_of_resolve hResolve
  obtain ⟨i, hd⟩ := List.mem_iff_getElem?.1 hd
  have hi : i < ds.length := hResolved.length_eq ▸ (List.getElem?_eq_some_iff.1 hd).1
  obtain ⟨added, rfl, -⟩ := hResolved.completes i _ _ (List.getElem?_eq_getElem hi) hd
  obtain ⟨source, hSource, hFile, hPlaced⟩ := scan_placedInSource hScan ds[i] (List.getElem_mem hi)
  obtain ⟨last, hSpans⟩ := hPlaced.spans
  refine ⟨source, hSource, hFile, ⟨last, hSpans.withImplicit added⟩, ?_⟩
  rw [Directive.definedNames_withImplicit]
  exact hPlaced.named_definedNames

/-- The scripts of directives that were compiled one after the other have the numbers of their
directives. -/
theorem getElem?_of_compile {ds : List Directive} {units : List CompiledUnit}
    (h : ds.mapM (·.compile) = .ok units) (hd : ds[i]? = some d) (hUnit : units[i]? = some unit) :
    d.compile = .ok unit := by
  induction ds generalizing units i with
  | nil => cases hd
  | cons first others ih =>
      rw [List.mapM_cons] at h
      cases hFirst : first.compile with
      | error diagnostic =>
          rw [hFirst] at h
          cases h
      | ok made =>
          cases hOthers : others.mapM (·.compile) with
          | error diagnostic =>
              rw [hFirst, hOthers] at h
              cases h
          | ok more =>
              rw [hFirst, hOthers] at h
              obtain rfl := Except.ok.inj h
              cases i with
              | zero =>
                  cases hd
                  cases hUnit
                  exact hFirst
              | succ i => exact ih hOthers hd hUnit

/-- The items of a plan are directives with their scripts. -/
theorem compile_of_item? (hPlan : ofSources dir sources warnings = .ok plan rest)
    (hItem : plan.item? i = some (d, unit)) : d.compile = .ok unit := by
  obtain ⟨ds, after, hScan, hMade⟩ := scanned_of_ofSources hPlan
  obtain ⟨-, -, hUnits⟩ := parts_of_ofDirectives hMade
  obtain ⟨e, he, hItem⟩ := Option.bind_eq_some_iff.1 hItem
  obtain ⟨made, hMade, hItem⟩ := Option.bind_eq_some_iff.1 hItem
  cases hItem
  exact getElem?_of_compile hUnits he hMade

/-- The place is a line of the directive whose script holds the body. -/
def Locates (plan : Plan) (body : Body) (p : Place) : Prop :=
  ∃ d, plan.directives[body.unit]? = some d ∧
    ∃ k < d.body.length, p = d.place (d.bodyLine + k) (some (body.label.getD topLabel))

/-- The place of a frame that stands for a body is one of the lines that hold the body. -/
theorem locates_of_standsFor (hPlan : ofSources dir sources warnings = .ok plan rest)
    (hPaths : ∀ source ∈ sources, '\n' ∉ source.file.path.toList) {f : Frame} {body : Body}
    (h : f.StandsFor plan.scripts body) : plan.Locates body (plan.place f) := by
  obtain ⟨node, hHas, hLine⟩ := h.line
  obtain ⟨program, hScript, s, hMem, hKind, hInside⟩ := hHas.hasNode
  obtain ⟨⟨d, unit⟩, hItem, rfl⟩ := Option.map_eq_some_iff.1 hScript
  have hCompile := compile_of_item? hPlan hItem
  obtain ⟨hMap, hProgram⟩ := Directive.of_compile hCompile
  have hDirective := directive_of_item? hItem
  obtain ⟨source, hSource, hFile, ⟨last, hSpans⟩, hNames⟩ :=
    exists_spansLines hPlan (List.mem_of_getElem? hDirective)
  have hStands := Directive.stands_parsed (hFile ▸ hPaths source hSource) hNames
  have hNode := hStands.of_mem hProgram hMem (by simpa using hKind) node hInside
  obtain ⟨k, hk, hLines⟩ := hSpans.exists_line hNode
  refine ⟨d, hDirective, k, hk, ?_⟩
  rw [place, h.site]
  dsimp only
  rw [hItem]
  dsimp only
  rw [hMap, hLine, hLines, d.sourceLine_unitMap, h.label]

end Plan

namespace Run

variable {World : Type} {host : Host (StateM World)} {plan : Plan} {fuel : Nat} {i : Nat}
  {d : Directive} {unit : CompiledUnit} {st : RunState}

/-- Showing lines always ends well. -/
theorem endsWell_showLines (host : Host (StateM World)) (lines : List String) (w : World) :
    ∃ w', EndsWell (showLines host lines) w () w' := by
  unfold showLines
  induction lines generalizing w with
  | nil => exact ⟨w, rfl⟩
  | cons line rest ih =>
      obtain ⟨w', hRest⟩ := ih (host.log line w).2
      exact ⟨w', (endsWell_bind_iff _ _ _ _ _).2 ⟨(), _, rfl, hRest⟩⟩

/-- What fails behind a part that ends well fails as a whole. -/
theorem run_bind_of_endsWell {α β : Type} {first : ExceptT Failure (StateM World) α}
    {second : α → ExceptT Failure (StateM World) β} {w w' : World} {a : α}
    (h : EndsWell first w a w') : (first >>= second).run.run w = (second a).run.run w' := by
  rw [ExceptT.run_bind, StateT.run_bind, h]
  rfl

/-- A failure is the outcome of everything that was to come behind it. -/
theorem run_bind_of_error {α β : Type} {first : ExceptT Failure (StateM World) α}
    {second : α → ExceptT Failure (StateM World) β} {w w' : World} {failure : Failure}
    (h : first.run.run w = (.error failure, w')) :
    (first >>= second).run.run w = (.error failure, w') := by
  rw [ExceptT.run_bind, StateT.run_bind, h]
  rfl

/-- A directive whose script fails is where the run ends. -/
theorem execute_fails (host : Host (StateM World)) (hItem : plan.item? i = some (d, unit))
    {error : EvalError} {ran : RunState}
    (hFails : (st.start d).2.evaluate fuel unit i (st.start d).1 = (.error (.failed error), ran))
    (w : World) : ∃ w', (execute host fuel plan st i).run.run w =
      (.error (.diagnostic (plan.runtimeDiagnostic error)), w') := by
  unfold execute
  rw [hItem]
  dsimp only
  rw [hFails]
  obtain ⟨w', hShown⟩ := endsWell_showLines host
    (ran.store.log.toList.drop (st.start d).2.store.log.size)
    (host.before d (host.clock w).2).2
  refine ⟨w', ?_⟩
  have hClock : EndsWell (monadLift host.clock) w (host.clock w).1 (host.clock w).2 := rfl
  have hBegun : EndsWell (monadLift (host.before d)) (host.clock w).2 ()
    (host.before d (host.clock w).2).2 := rfl
  refine (run_bind_of_endsWell hClock).trans ((run_bind_of_endsWell hBegun).trans ?_)
  exact (run_bind_of_endsWell hShown).trans (run_bind_of_error rfl)

/-- All functions in a run were written in its scripts. -/
theorem functionsFit_stateAfter (hSound : plan.Sound) {receipt : Bool} {done more : List Nat}
    (hOrder : plan.order = done ++ more) {w w' : World}
    (h : EndsWell (stateAfter host fuel plan receipt done) w st w') :
    FunctionsFit plan.scripts st.store := by
  induction done using List.reverseRecOn generalizing more st w' with
  | nil =>
      obtain ⟨rfl, -⟩ := (endsWell_pure_iff _ _ _ _).1 h
      exact fun _ hClosure => (Array.not_mem_empty _ hClosure).elim
  | append_singleton done i ih =>
      rw [stateAfter, List.foldlM_append] at h
      obtain ⟨middle, _, hDone, hLast⟩ := (endsWell_bind_iff _ _ _ _ _).1 h
      rw [List.foldlM_cons] at hLast
      obtain ⟨_, _, hStep, hLast⟩ := (endsWell_bind_iff _ _ _ _ _).1 hLast
      obtain ⟨rfl, rfl⟩ := (endsWell_pure_iff _ _ _ _).1 hLast
      have hSplit : plan.order = done ++ i :: more := by rw [hOrder, List.append_assoc]; rfl
      obtain ⟨d, unit, hItem, -⟩ := hSound.exists_item (i := i) (by simp [hSplit])
      obtain ⟨ran, symbols, hRan, -, hStore, -⟩ := endsWell_execute hItem hStep
      have hEvaluates := RunState.evaluates hItem (ih hSplit hDone) fuel
      rw [hRan] at hEvaluates
      exact hStore ▸ hEvaluates.functions

end Run

/-- Where a script fails in a run, the run ends with a failure of which each frame of a script names
a line of the directive whose script holds the code that the frame stands for; the outermost frame
is the top level of the directive that was running. -/
theorem location_of_runtime_error {World : Type} {host : Host (StateM World)} {dir : String}
    {sources : List SourceUnit} {plan : Plan} {warnings rest : Array String}
    (hPlan : Plan.ofSources dir sources warnings = .ok plan rest)
    (hPaths : ∀ source ∈ sources, '\n' ∉ source.file.path.toList) {fuel : Nat} {receipt : Bool}
    {done more : List Nat} {i : Nat} (hOrder : plan.order = done ++ i :: more) {st : RunState}
    {w w' : World} (hBefore : EndsWell (Run.stateAfter host fuel plan receipt done) w st w')
    {d : Directive} {unit : CompiledUnit} (hItem : plan.item? i = some (d, unit))
    {error : EvalError} {ran : RunState}
    (hFails : (st.start d).2.evaluate fuel unit i (st.start d).1 =
      (.error (.failed error), ran)) :
    (∃ w'', (Run.executeAll host fuel plan receipt).run.run w =
        (.error (.diagnostic (plan.runtimeDiagnostic error)), w'')) ∧
      (plan.runtimeDiagnostic error).places = error.trace.map plan.place ∧
      (∀ f ∈ error.trace, f.site = .native ∨
        ∃ body, f.StandsFor plan.scripts body ∧ plan.Locates body (plan.place f)) ∧
      ∃ inner f, error.trace = inner ++ [f] ∧ f.StandsFor plan.scripts (.top i) ∧
        plan.Locates (.top i) (plan.place f) := by
  have hFit := Run.functionsFit_stateAfter (Plan.sound_of_ofSources hPlan) hOrder hBefore
  have hTold := (RunState.evaluates hItem hFit fuel).told (.failed error) (by rw [hFails])
  obtain ⟨hFrames, inner, f, hTrace, hSite, hLabel⟩ := hTold
  refine ⟨?_, rfl, fun g hg => ?_, inner, f, hTrace, ?_⟩
  · obtain ⟨w'', hExecute⟩ := Run.execute_fails host hItem hFails w'
    rw [Run.executeAll_eq host fuel plan receipt hOrder]
    exact ⟨w'', (Run.run_bind_of_endsWell hBefore).trans (Run.run_bind_of_error hExecute)⟩
  · exact (hFrames g hg).imp_right fun ⟨body, hShows⟩ =>
      ⟨body, hShows, Plan.locates_of_standsFor hPlan hPaths hShows⟩
  · have hTop := (hFrames f (by simp [hTrace])).standsFor_top hSite hLabel
    exact ⟨hTop, Plan.locates_of_standsFor hPlan hPaths hTop⟩

def failure? : Except Stop Unit → Option EvalError
  | .error (.failed error) => some error
  | .error .outOfFuel => none
  | .ok () => none

/-- What is found as the failure of an outcome is what the outcome has failed with. -/
theorem eq_of_failure? {outcome : Except Stop Unit} {error : EvalError}
    (h : failure? outcome = some error) : outcome = .error (.failed error) := by
  unfold failure? at h
  split at h
  · cases h
    rfl
  · cases h
  · cases h

/-- A source with a function that fails, and one that calls it. -/
def failingSources : List SourceUnit :=
  [.ofText "a.c" "/* #meta export check\nfn check(x) \x7b assert x \x7d\n*/\n",
    .ofText "b.c" "/* #meta import check\n\ncheck(false)\n*/\n"]

/-- A source with a function that fails and one that calls it: each frame of the trace names a line
of its own source. -/
theorem location_of_runtime_error_failingSources : ∃ plan rest st d unit error ran,
    Plan.ofSources "out" failingSources #[] = .ok plan rest ∧
      (∀ source ∈ failingSources, '\n' ∉ source.file.path.toList) ∧
      plan.order = [0] ++ 1 :: [] ∧
      EndsWell (Run.stateAfter Host.idle 30 plan true [0]) () st () ∧
      plan.item? 1 = some (d, unit) ∧
      (st.start d).2.evaluate 30 unit 1 (st.start d).1 = (.error (.failed error), ran) ∧
      (∃ w, (Run.executeAll Host.idle 30 plan true).run.run () =
        (.error (.diagnostic (plan.runtimeDiagnostic error)), w)) ∧
      (∀ f ∈ error.trace, f.site = .native ∨
        ∃ body, f.StandsFor plan.scripts body ∧ plan.Locates body (plan.place f)) ∧
      ∃ inner f, error.trace = inner ++ [f] ∧ f.StandsFor plan.scripts (.top 1) ∧
        plan.Locates (.top 1) (plan.place f) := by
  have hPasses : Plan.passes failingSources (fun plan => plan.order == [0, 1] &&
      endsWith (Run.stateAfter Host.idle 30 plan true [0]) fun st =>
        (plan.item? 1).any fun item => (failure? ((st.start item.1).2.evaluate 30 item.2 1
          (st.start item.1).1).1).isSome) = true := by
    decide +kernel
  have hPaths : ∀ source ∈ failingSources, '\n' ∉ source.file.path.toList := by decide
  obtain ⟨plan, rest, hPlan, hChecks⟩ := Plan.exists_of_passes hPasses
  obtain ⟨hOrder, hEnds⟩ := Bool.and_eq_true_iff.1 hChecks
  obtain ⟨st, hRun, hFails⟩ := endsWell_of_endsWith hEnds
  obtain ⟨⟨d, unit⟩, hItem, hFails⟩ := (Option.any_eq_true _ _).1 hFails
  obtain ⟨error, hFailure⟩ := Option.isSome_iff_exists.1 hFails
  have hSplit : plan.order = [0] ++ 1 :: [] := eq_of_beq hOrder
  have hEvaluate : (st.start d).2.evaluate 30 unit 1 (st.start d).1 =
      (.error (.failed error), _) := Prod.ext (eq_of_failure? hFailure) rfl
  obtain ⟨hEnd, -, hFrames, hLast⟩ :=
    location_of_runtime_error hPlan hPaths hSplit hRun hItem hEvaluate
  exact ⟨plan, rest, st, d, unit, error, _, hPlan, hPaths, hSplit, hRun, hItem, hEvaluate, hEnd,
    hFrames, hLast⟩

/-- A source whose path has a line end, behind which the script of its directive goes on. -/
def brokenPathSources : List SourceUnit :=
  [.ofText "a\nlet x = 1 #.mps" "#meta\nassert false"]

/-- The only frame of the failure names the line below the only one of the directive. -/
theorem runtime_error_below_directive : ∃ plan rest st d unit error ran f,
    Plan.ofSources "out" brokenPathSources #[] = .ok plan rest ∧ plan.order = [] ++ 0 :: [] ∧
      EndsWell (Run.stateAfter Host.idle 30 plan true []) () st () ∧
      plan.item? 0 = some (d, unit) ∧
      (st.start d).2.evaluate 30 unit 0 (st.start d).1 = (.error (.failed error), ran) ∧
      error.trace = [f] ∧ plan.place f = d.place 3 (some Plan.topLabel) ∧
      d.bodyLine = 2 ∧ d.body.length = 1 := by
  have hPasses : Plan.passes brokenPathSources (fun plan => plan.order == [0] &&
      endsWith (Run.stateAfter Host.idle 30 plan true []) fun st =>
        (plan.item? 0).any fun item => (failure? ((st.start item.1).2.evaluate 30 item.2 0
          (st.start item.1).1).1).any fun error => error.trace.head?.any fun f =>
            decide (error.trace = [f] ∧ plan.place f = item.1.place 3 (some Plan.topLabel) ∧
              item.1.bodyLine = 2 ∧ item.1.body.length = 1)) = true := by
    decide +kernel
  obtain ⟨plan, rest, hPlan, hChecks⟩ := Plan.exists_of_passes hPasses
  obtain ⟨hOrder, hEnds⟩ := Bool.and_eq_true_iff.1 hChecks
  obtain ⟨st, hRun, hFails⟩ := endsWell_of_endsWith hEnds
  obtain ⟨⟨d, unit⟩, hItem, hFails⟩ := (Option.any_eq_true _ _).1 hFails
  obtain ⟨error, hFailure, hTrace⟩ := (Option.any_eq_true _ _).1 hFails
  obtain ⟨f, -, hPlace⟩ := (Option.any_eq_true _ _).1 hTrace
  have hEvaluate : (st.start d).2.evaluate 30 unit 0 (st.start d).1 =
      (.error (.failed error), _) := Prod.ext (eq_of_failure? hFailure) rfl
  exact ⟨plan, rest, st, d, unit, error, _, f, hPlan, eq_of_beq hOrder, hRun, hItem, hEvaluate,
    of_decide_eq_true hPlace⟩

end Metagen
