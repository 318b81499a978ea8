import Metagen.Proofs.Eval.Generator
import Metagen.Proofs.Run.Imports

/-! Recorded values and what happens to them while the run goes on. Directives take copies, so that
they cannot change what is recorded, with one exception: functions are not copied, and a function
may lead to a recorded value through the scopes it was written in. A value stays as it was recorded
as long as no directive imports such a function. -/

namespace Metagen

namespace Store

variable {s t : Store} {v : Value}

/-- A function in the first value leads to a list or a record of the second one. -/
def LeadsInto (s : Store) (u v : Value) : Prop :=
  ∃ f, s.HoldsValue u (.function f) ∧ ∃ c ∈ s.reached v, s.Reaches (.function f) c.cell

/-- The lists and records in the value hold the same in both stores. -/
def Unchanged (s t : Store) (v : Value) : Prop := ∀ c ∈ s.reached v, s.Agrees t c.cell

/-- Without functions there is no way. -/
theorem not_leadsInto_of_no_functions (h : s.functions.size = 0) (u v : Value) :
    ¬ s.LeadsInto u v := by
  rintro ⟨f, -, c, -, hWay⟩
  rcases hWay.cases_head with hSame | ⟨x, hLink, -⟩
  · cases c <;> cases hSame
  · have hHas : f < s.functions.size := hasCell_of_mem_links hLink
    omega

end Store

namespace Guard

/-- Guard the containers of a value, and all cells that lead to them. -/
def ofValue (s : Store) (v : Value) (hClosed : s.Closed) (hv : s.HasValue v) : Guard where
  base := s
  closed := hClosed
  guards x := ∃ c ∈ s.reached v, s.Reaches x c.cell
  made := by
    rintro x ⟨c, hc, hWay⟩
    rcases hWay.cases_head with rfl | ⟨y, hLink, -⟩
    · exact Store.hasCell_of_mem_reached hClosed hv hc
    · exact Store.hasCell_of_mem_links hLink

variable {g : Guard} {s : Store} {u v : Value}

/-- The cells in a value and all those that lead to them can be guarded, as no other cell leads
there. -/
theorem keeps_ofValue (hClosed : s.Closed) (hv : s.HasValue v) :
    (ofValue s v hClosed hv).Keeps s := by
  refine ⟨.refl s, fun x _ => .refl s x, fun x hx y hy => ⟨hClosed x y hy, ?_⟩⟩
  rintro ⟨c, hc, hWay⟩
  exact hx ⟨c, hc, hWay.head hy⟩

theorem unchanged_of_keeps (hClosed : s.Closed) (hv : s.HasValue v) {t : Store}
    (h : (ofValue s v hClosed hv).Keeps t) : s.Unchanged t v :=
  fun c hc => h.agrees c.cell ⟨c, hc, .refl⟩

/-- A value none of whose functions leads into the guarded one is harmless to it. -/
theorem harmless_ofValue (hClosed : s.Closed) (hv : s.HasValue v) (hu : s.HasValue u)
    (h : ¬ s.LeadsInto u v) : (ofValue s v hClosed hv).Harmless u := by
  refine ⟨hu, fun f hHolds hGuarded => h ⟨f, hHolds, ?_⟩⟩
  exact hGuarded

end Guard

namespace SymbolTable

variable {d : Directive} {env : Env} {s : Store} {symbols after : SymbolTable} {done : Unit}
  {name : String} {v : Value}

/-- What was recorded stays. -/
theorem RecordsDefinitions.get?_of_old (h : RecordsDefinitions d env s symbols (.ok done after))
    (hOld : symbols.get? name = some v) : after.get? name = some v := by
  cases h with
  | all hEntries =>
      have hLookup : after.get? name = (symbols.entries ++ _).lookup name :=
        congrArg (List.lookup name) hEntries
      rw [hLookup, List.lookup_append]
      exact Option.or_eq_some_iff.2 (.inl hOld)

/-- What is recorded was recorded before, or the directive has just bound it. -/
theorem RecordsDefinitions.get?_cases (h : RecordsDefinitions d env s symbols (.ok done after))
    (hAfter : after.get? name = some v) :
    symbols.get? name = some v ∨ env.namespaceGet? s name = some v := by
  cases h with
  | @all values _ hEntries _ _ hBound =>
      have hMem := Bindings.mem_entries_of_get? hAfter
      rw [hEntries, List.mem_append] at hMem
      rcases hMem with hOld | hNew
      · exact .inl (Bindings.get?_of_mem_entries hOld)
      · exact .inr (hBound _ hNew)

end SymbolTable

namespace RunState

variable {g : Guard} {old : SymbolTable} {st : RunState} {d : Directive}

/-- What is guarded is as it was, what was recorded is recorded, and values recorded since are
free. -/
structure Kept (g : Guard) (old : SymbolTable) (st : RunState) : Prop where
  keeps : g.Keeps st.store
  recorded : ∀ name v, old.get? name = some v → st.symbols.get? name = some v
  added : ∀ name v, st.symbols.get? name = some v →
    old.get? name = some v ∨ g.FreeValue st.store v

/-- A directive that starts with harmless imports has scopes that lead to nothing that is
guarded. -/
theorem Kept.start (h : st.Kept g old)
    (hImports : ∀ name ∈ d.importedNames, ∀ v, old.get? name = some v → g.Harmless v) :
    g.Advances st.store (st.start d).2.store ∧
      g.FreeEnv (st.start d).2.store (st.start d).1 := by
  apply h.keeps.namespaceFor
  intro name hName v hv
  exact (h.added name v hv).elim (fun hOld => .inr (hImports name hName v hOld)) .inl

/-- A script keeps what is guarded, also when it fails. -/
theorem advances_evaluate (hKeeps : g.Keeps st.store) {env : Env}
    (hEnv : g.FreeEnv st.store env) (fuel : Nat) (unit : CompiledUnit) (number : Nat) :
    g.Advances st.store (st.evaluate fuel unit number env).2.store := by
  have hReaches : g.Reaches st.store
      ({ store := st.store, emitter := st.emitter, env } : Eval.Machine) := by
    refine ⟨⟨.refl _, hKeeps⟩, ?_⟩
    rintro _ ⟨⟩
    exact hEnv
  have hLands := Guard.safe_runProgram hEnv fuel unit.program number _ hReaches
  unfold evaluate
  dsimp only
  rw [Eval.runProgram_of_scopes]
  split
  next hRun =>
    rw [hRun] at hLands
    exact hLands.1.advances
  next hRun =>
    rw [hRun] at hLands
    exact hLands.advances

/-- A directive that has run, and has found no way to what is guarded. -/
theorem Kept.run (h : st.Kept g old)
    (hImports : ∀ name ∈ d.importedNames, ∀ v, old.get? name = some v → g.Harmless v)
    (hNodup : (st.symbols.names ++ d.definedNames).Nodup) {fuel number : Nat} {unit : CompiledUnit}
    {ran st' : RunState} {symbols : SymbolTable}
    (hRan : (st.start d).2.evaluate fuel unit number (st.start d).1 = (.ok (), ran))
    (hRecord : SymbolTable.record d (st.start d).1 ran.store st.symbols = .ok () symbols)
    (hStore : st'.store = ran.store) (hSymbols : st'.symbols = symbols) : st'.Kept g old := by
  subst hSymbols
  obtain ⟨hStart, hEnv⟩ := h.start hImports
  have hRun := advances_evaluate hStart.keeps hEnv fuel unit number
  rw [hRan] at hRun
  have hAdvances := hStart.trans hRun
  have hRecords := SymbolTable.recordsDefinitions_record (st.start d).1 ran.store hNodup
  rw [hRecord] at hRecords
  refine ⟨hStore ▸ hAdvances.keeps, fun name v hv => ?_, fun name v hv => ?_⟩
  · exact hRecords.get?_of_old (h.recorded name v hv)
  · rw [hStore]
    rcases hRecords.get?_cases hv with hOld | hNew
    · exact (h.added name v hOld).imp_right fun hFree => hFree.mono hAdvances.grown
    · exact .inr (hRun.keeps.namespaceGet? (hEnv.mono hRun.grown) hNew)

end RunState

namespace Run

variable {World : Type} {host : Host (StateM World)} {fuel : Nat} {plan : Plan} {receipt : Bool}
  {g : Guard} {old : SymbolTable} {st st' : RunState} {w w' w'' : World}

/-- One more directive that finds no way to what is guarded. -/
theorem kept_execute (h : st.Kept g old) {d : Directive} {unit : CompiledUnit} {i : Nat}
    (hItem : plan.item? i = some (d, unit))
    (hImports : ∀ name ∈ d.importedNames, ∀ v, old.get? name = some v → g.Harmless v)
    (hNodup : (st.symbols.names ++ d.definedNames).Nodup)
    (hStep : EndsWell (execute host fuel plan st i) w st' w') : st'.Kept g old := by
  obtain ⟨ran, symbols, hRan, hRecord, hStore, hSymbols, -⟩ := endsWell_execute hItem hStep
  exact h.run hImports hNodup hRan hRecord hStore hSymbols

/-- Any number of directives that find no way to what is guarded. -/
theorem kept_foldlM (hPlan : plan.Sound) {done between more : List Nat}
    (hOrder : plan.order = done ++ between ++ more)
    (hDone : EndsWell (stateAfter host fuel plan receipt done) w st w')
    (hBetween : EndsWell (between.foldlM (execute host fuel plan) st) w' st' w'')
    (h : st.Kept g old)
    (hImports : ∀ i ∈ between, ∀ d, plan.directives[i]? = some d → ∀ name ∈ d.importedNames,
      ∀ v, old.get? name = some v → g.Harmless v) : st'.Kept g old := by
  induction between using List.reverseRecOn generalizing more st' w'' with
  | nil =>
      obtain ⟨rfl, -⟩ := (endsWell_pure_iff _ _ _ _).1 hBetween
      exact h
  | append_singleton between i ih =>
      rw [List.foldlM_append] at hBetween
      obtain ⟨middle, v, hMiddle, hLast⟩ := (endsWell_bind_iff _ _ _ _ _).1 hBetween
      rw [List.foldlM_cons] at hLast
      obtain ⟨_, _, hStep, hLast⟩ := (endsWell_bind_iff _ _ _ _ _).1 hLast
      obtain ⟨rfl, rfl⟩ := (endsWell_pure_iff _ _ _ _).1 hLast
      have hSplit : plan.order = done ++ between ++ i :: more := by
        rw [hOrder]
        simp
      have hMember : i ∈ plan.order := by
        rw [hSplit]
        simp
      obtain ⟨d, unit, hItem, hd⟩ := hPlan.exists_item hMember
      have hKept := ih hSplit hMiddle fun k hk => hImports k (List.mem_append_left _ hk)
      -- So far all names are distinct, so that the next ones are recorded behind them.
      have hSoFar : EndsWell (stateAfter host fuel plan receipt (done ++ between)) w middle v := by
        rw [stateAfter, List.foldlM_append]
        exact (endsWell_bind_iff _ _ _ _ _).2 ⟨st, w', hDone, hMiddle⟩
      have hNames := names_stateAfter hPlan hSplit hSoFar
      have hDistinct : (Schedule.namesOf plan.directives (done ++ between ++ [i])).Nodup := by
        apply hPlan.nodup_namesOf
        rw [hSplit, List.append_assoc _ [i], List.singleton_append]
      rw [Schedule.namesOf_concat hd, ← hNames] at hDistinct
      exact kept_execute hKept hItem (hImports i (by simp) d hd) hDistinct hStep

/-- In every state of a run, cells and recorded values lead to cells that have been made. -/
theorem made_stateAfter (hPlan : plan.Sound) {done more : List Nat}
    (hOrder : plan.order = done ++ more)
    (hDone : EndsWell (stateAfter host fuel plan receipt done) w st w') :
    st.store.Closed ∧ ∀ name v, st.symbols.get? name = some v → st.store.HasValue v := by
  have hStart : EndsWell (stateAfter host fuel plan receipt []) w { emitter := { receipt } } w :=
    (endsWell_pure_iff _ _ _ _).2 ⟨rfl, rfl⟩
  have hFirst : RunState.Kept (.nothing {} Store.closed_empty) {} { emitter := { receipt } } :=
    ⟨Guard.keeps_nothing _, fun _ _ h => h, fun _ _ h => .inl h⟩
  have hSplit : plan.order = [] ++ done ++ more := hOrder
  have hKept := kept_foldlM hPlan hSplit hStart hDone hFirst fun _ _ _ _ _ _ _ hv => nomatch hv
  refine ⟨hKept.keeps.closedStore, fun name v hv => ?_⟩
  rcases hKept.added name v hv with hNone | hFree
  · cases hNone
  · exact hFree.hasValue

end Run

namespace RunState

variable {st st' : RunState} {d : Directive} {name : String} {v : Value}

/-- Nothing that the directive imports holds a function that leads into the value. -/
def Unlinked (st : RunState) (d : Directive) (v : Value) : Prop :=
  ∀ name ∈ d.importedNames, ∀ u, st.symbols.get? name = some u → ¬ st.store.LeadsInto u v

/-- The directive starts with a name bound to something that looks like the value. -/
def Sees (st : RunState) (d : Directive) (name : String) (s : Store) (v : Value) : Prop :=
  ∃ copy, (st.start d).1.namespaceGet? (st.start d).2.store name = some copy ∧
    Alike s v (st.start d).2.store copy

theorem kept_self {g : Guard} (h : g.Keeps st.store) : st.Kept g st.symbols :=
  ⟨h, fun _ _ hu => hu, fun _ _ hu => .inl hu⟩

/-- Where nothing that a directive imports leads into a value, all its imports are harmless to that
value. -/
theorem Unlinked.harmless (h : st.Unlinked d v) (hClosed : st.store.Closed)
    (hMade : ∀ name u, st.symbols.get? name = some u → st.store.HasValue u)
    (hv : st.store.HasValue v) : ∀ name ∈ d.importedNames, ∀ u, st.symbols.get? name = some u →
      (Guard.ofValue st.store v hClosed hv).Harmless u := by
  intro name hName u hu
  exact Guard.harmless_ofValue hClosed hv (hMade name u hu) (h name hName u hu)

/-- A script that was given no function leading into the value does not change it. -/
theorem Kept.unchanged_evaluate {old : SymbolTable} {s : Store} {hClosed : s.Closed}
    {hv : s.HasValue v} (h : st'.Kept (Guard.ofValue s v hClosed hv) old)
    (hImports : ∀ name ∈ d.importedNames, ∀ u, old.get? name = some u →
      (Guard.ofValue s v hClosed hv).Harmless u) (fuel : Nat) (unit : CompiledUnit)
    (number : Nat) :
    s.Unchanged ((st'.start d).2.evaluate fuel unit number (st'.start d).1).2.store v := by
  obtain ⟨hStart, hEnv⟩ := h.start hImports
  have hRun := advances_evaluate hStart.keeps hEnv fuel unit number
  exact Guard.unchanged_of_keeps hClosed hv hRun.keeps

end RunState

/-- A recorded value stays recorded, and whatever imports it starts with what it holds by then. It
holds what it held as long as directives run that import no function leading into it. -/
theorem recorded_value_kept {dir : String} {sources : List SourceUnit}
    {warnings rest : Array String} {World : Type} {host : Host (StateM World)} {fuel : Nat}
    {plan : Plan} {receipt : Bool} {done between more : List Nat} {st st' : RunState}
    {w w' w'' : World} {name : String} {v : Value}
    (hPlan : Plan.ofSources dir sources warnings = .ok plan rest)
    (hOrder : plan.order = done ++ between ++ more)
    (hDone : EndsWell (Run.stateAfter host fuel plan receipt done) w st w')
    (hBetween : EndsWell (between.foldlM (Run.execute host fuel plan) st) w' st' w'')
    (hRecorded : st.symbols.get? name = some v) :
    st'.symbols.get? name = some v ∧
      (∀ d ∈ plan.directives, name ∈ d.importedNames → st'.Sees d name st'.store v) ∧
      ((∀ i ∈ between, ∀ d, plan.directives[i]? = some d → st.Unlinked d v) →
        st.store.Unchanged st'.store v ∧
        (∀ d ∈ plan.directives, name ∈ d.importedNames → st'.Sees d name st.store v) ∧
        ∀ d number unit outcome ran, st.Unlinked d v →
          (st'.start d).2.evaluate fuel unit number (st'.start d).1 = (outcome, ran) →
            ran.symbols.get? name = some v ∧ st.store.Unchanged ran.store v) := by
  have h := Plan.sound_of_ofSources hPlan
  have hLast : EndsWell (Run.stateAfter host fuel plan receipt (done ++ between)) w st' w'' := by
    rw [Run.stateAfter, List.foldlM_append]
    exact (endsWell_bind_iff _ _ _ _ _).2 ⟨st, w', hDone, hBetween⟩
  obtain ⟨hClosed, hMade⟩ := Run.made_stateAfter h (hOrder.trans (List.append_assoc _ _ _)) hDone
  obtain ⟨hClosed', hMade'⟩ := Run.made_stateAfter h hOrder hLast
  have hv := hMade name v hRecorded
  -- With nothing guarded, every directive may be run.
  have hAll : st'.Kept (Guard.nothing st.store hClosed) st.symbols :=
    Run.kept_foldlM h hOrder hDone hBetween (RunState.kept_self (Guard.keeps_nothing hClosed))
      fun i _ d _ n _ u hu => Guard.harmless_nothing hClosed (hMade n u hu)
  have hName := hAll.recorded name v hRecorded
  have hSees : ∀ s : Store, (∀ c ∈ st'.store.reached v, s.Agrees st'.store c.cell) →
      ∀ d ∈ plan.directives, name ∈ d.importedNames → st'.Sees d name s v := by
    intro s hSame d hd hImport
    exact SymbolTable.alike_namespaceFor hClosed' hMade' (h.imports_nodup d hd) hImport hName hSame
  refine ⟨hName, hSees st'.store fun c _ => .refl _ _, fun hUnlinked => ?_⟩
  have hKept : st'.Kept (Guard.ofValue st.store v hClosed hv) st.symbols :=
    Run.kept_foldlM h hOrder hDone hBetween (RunState.kept_self (Guard.keeps_ofValue hClosed hv))
      fun i hi d hd => (hUnlinked i hi d hd).harmless hClosed hMade hv
  have hSame := Guard.unchanged_of_keeps hClosed hv hKept.keeps
  refine ⟨hSame, hSees st.store ?_, fun d number unit outcome ran hApart hRan => ?_⟩
  · exact fun c hc => hSame c (Store.mem_reached_of_agrees hClosed hv hSame c hc)
  · have hSymbols := (st'.start d).2.symbols_evaluate fuel unit number (st'.start d).1
    have hStore := hKept.unchanged_evaluate (hApart.harmless hClosed hMade hv) fuel unit number
    rw [hRan] at hSymbols hStore
    rw [hSymbols]
    exact ⟨hName, hStore⟩

/-- A list that the first of three directives exports is recorded unchanged after both directives
that import it have run. -/
theorem recorded_value_kept_linkedSources : ∃ plan rest st st' v,
    Plan.ofSources "out" linkedSources #[] = .ok plan rest ∧ plan.order = [0] ++ [1, 2] ++ [] ∧
      EndsWell (Run.stateAfter Host.idle 30 plan true [0]) () st () ∧
      EndsWell ([1, 2].foldlM (Run.execute Host.idle 30 plan) st) () st' () ∧
      st.symbols.get? "L" = some v ∧ (∀ d, st.Unlinked d v) ∧
      st'.symbols.get? "L" = some v ∧ st.store.Unchanged st'.store v ∧
      ∀ d ∈ plan.directives, "L" ∈ d.importedNames → st'.Sees d "L" st.store v := by
  have hPasses : Plan.passes linkedSources (fun plan => plan.order == [0, 1, 2] &&
      endsWith (Run.stateAfter Host.idle 30 plan true [0]) fun st =>
        (st.store.functions.size == 0 && (st.symbols.get? "L").isSome) &&
          endsWith ([1, 2].foldlM (Run.execute Host.idle 30 plan) st) fun _ => true) = true := by
    decide +kernel
  obtain ⟨plan, rest, hPlan, hChecks⟩ := Plan.exists_of_passes hPasses
  obtain ⟨hOrder, hEnds⟩ := Bool.and_eq_true_iff.1 hChecks
  obtain ⟨st, hDone, hChecks⟩ := endsWell_of_endsWith hEnds
  obtain ⟨hState, hEnds⟩ := Bool.and_eq_true_iff.1 hChecks
  obtain ⟨st', hBetween, -⟩ := endsWell_of_endsWith hEnds
  obtain ⟨hFunctions, hSome⟩ := Bool.and_eq_true_iff.1 hState
  obtain ⟨v, hRecorded⟩ := Option.isSome_iff_exists.1 hSome
  have hSplit : plan.order = [0] ++ [1, 2] ++ [] := eq_of_beq hOrder
  have hUnlinked : ∀ d, st.Unlinked d v := fun d _ _ u _ =>
    Store.not_leadsInto_of_no_functions (eq_of_beq hFunctions) u v
  obtain ⟨hKept, -, hIsolated⟩ := recorded_value_kept hPlan hSplit hDone hBetween hRecorded
  obtain ⟨hSame, hSees, -⟩ := hIsolated fun _ _ d _ => hUnlinked d
  exact ⟨plan, rest, st, st', v, hPlan, hSplit, hDone, hBetween, hRecorded, hUnlinked, hKept,
    hSame, hSees⟩

/-- A source whose second directive calls a function of the first one, which appends to a list. -/
def appendingSources : List SourceUnit :=
  [.ofText "a.c" ("/* #meta export L, add\nlet L = [1]\nfn add(x) \x7b L.push(x) \x7d\n*/\n" ++
    "/* #meta import add\nadd(2)\n*/\n" ++
    "/* #meta export N\n#meta import L\nlet N = len(L)\n*/\n")]

/-- The list that the first directive recorded is longer when the second one has run, and the third
one counts what has been added. -/
theorem recorded_value_changed : ∃ plan rest st st' st'' v,
    Plan.ofSources "out" appendingSources #[] = .ok plan rest ∧
      plan.order = [0] ++ [1] ++ [2] ∧
      EndsWell (Run.stateAfter Host.idle 30 plan true [0]) () st () ∧
      EndsWell ([1].foldlM (Run.execute Host.idle 30 plan) st) () st' () ∧
      EndsWell ([2].foldlM (Run.execute Host.idle 30 plan) st') () st'' () ∧
      st.symbols.get? "L" = some v ∧ ¬ st.store.Unchanged st'.store v ∧
      v.render st.store = "[1]" ∧ v.render st'.store = "[1, 2]" ∧
      (st''.symbols.get? "N").map (·.render st''.store) = some "2" := by
  have hPasses : Plan.passes appendingSources (fun plan => plan.order == [0, 1, 2] &&
      endsWith (Run.stateAfter Host.idle 30 plan true [0]) fun st =>
        endsWith ([1].foldlM (Run.execute Host.idle 30 plan) st) fun st' =>
          endsWith ([2].foldlM (Run.execute Host.idle 30 plan) st') fun st'' =>
            (st.symbols.get? "L").any (fun v => decide (v.container? = some (.list 0) ∧
              v.render st.store = "[1]" ∧ v.render st'.store = "[1, 2]")) &&
            decide ((st.store.listAt 0).size = 1 ∧ (st'.store.listAt 0).size = 2 ∧
              (st''.symbols.get? "N").map (·.render st''.store) = some "2")) = true := by
    decide +kernel
  obtain ⟨plan, rest, hPlan, hChecks⟩ := Plan.exists_of_passes hPasses
  obtain ⟨hOrder, hEnds⟩ := Bool.and_eq_true_iff.1 hChecks
  obtain ⟨st, hFirst, hEnds⟩ := endsWell_of_endsWith hEnds
  obtain ⟨st', hSecond, hEnds⟩ := endsWell_of_endsWith hEnds
  obtain ⟨st'', hThird, hChecks⟩ := endsWell_of_endsWith hEnds
  obtain ⟨hList, hSizes⟩ := Bool.and_eq_true_iff.1 hChecks
  obtain ⟨v, hRecorded, hShown⟩ := (Option.any_eq_true _ _).1 hList
  obtain ⟨hRoot, hBefore, hAfter⟩ := of_decide_eq_true hShown
  obtain ⟨hOne, hTwo, hCount⟩ := of_decide_eq_true hSizes
  refine ⟨plan, rest, st, st', st'', v, hPlan, eq_of_beq hOrder, hFirst, hSecond, hThird,
    hRecorded, fun hSame => ?_, hBefore, hAfter, hCount⟩
  have hItems : st.store.listAt 0 = st'.store.listAt 0 := hSame _ (Store.root_mem_reached hRoot)
  rw [hItems, hTwo] at hOne
  cases hOne

end Metagen
