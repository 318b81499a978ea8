import Metagen.Proofs.Bindings
import Metagen.Proofs.Run.Execution
import Metagen.Proofs.Value.Store

/-! The names that directives take from each other. When a directive starts, exactly the names are
recorded that the directives before it define, and everything it imports is among them; when its
script has run, its own names are recorded behind them, or none if one of them is not bound. -/

namespace Metagen

namespace SymbolTable

variable {d : Directive} {env : Env} {s : Store} {symbols : SymbolTable}

/-- Importing a name copies the recorded value and binds the copy among the names of the
directive. -/
theorem importName_eq {name : String} {value : Value} (h : symbols.get? name = some value)
    (env : Env) (s : Store) : importName symbols env s name =
      env.defineNamespace (s.deepCopy value).2 name (s.deepCopy value).1 := by
  rw [importName, h]

/-- A recorded name is bound behind those that are bound already. -/
theorem importName_spec {name : String} (hCell : env.namespaceCell < s.namespaces.size)
    (hName : name ∈ symbols.names) (hNew : name ∉ env.namespaceNames s) :
    env.namespaceCell < (importName symbols env s name).namespaces.size ∧
      env.namespaceNames (importName symbols env s name) = env.namespaceNames s ++ [name] := by
  obtain ⟨value, hValue⟩ := (symbols.exists_get?_iff name).2 hName
  rw [importName_eq hValue]
  -- A copy adds lists and records only.
  have hSize : env.namespaceCell < (s.deepCopy value).2.namespaces.size := hCell
  have hNames : env.namespaceNames (s.deepCopy value).2 = env.namespaceNames s := rfl
  generalize s.deepCopy value = copied at hSize hNames ⊢
  rw [Env.namespaceNames_defineNamespace hSize, hNames, if_neg hNew, Env.size_defineNamespace]
  exact ⟨hSize, rfl⟩

/-- Names that are recorded are all bound, in order. -/
theorem namespaceNames_foldl (names : List String) {s : Store}
    (hCell : env.namespaceCell < s.namespaces.size)
    (hNames : ∀ name ∈ names, name ∈ symbols.names)
    (hNodup : (env.namespaceNames s ++ names).Nodup) :
    env.namespaceNames (names.foldl (importName symbols env) s) =
      env.namespaceNames s ++ names := by
  induction names generalizing s with
  | nil => exact (List.append_nil _).symm
  | cons name rest ih =>
      have hNew : name ∉ env.namespaceNames s := fun hOld =>
        (List.nodup_append.1 hNodup).2.2 name hOld name List.mem_cons_self rfl
      obtain ⟨hSize, hBound⟩ := importName_spec hCell (hNames name List.mem_cons_self) hNew
      rw [List.foldl_cons, ih hSize (fun n hn => hNames n (List.mem_cons_of_mem _ hn)), hBound,
        List.append_assoc, List.singleton_append]
      rw [hBound, List.append_assoc]
      exact hNodup

/-- A directive starts with exactly the names it imports. -/
theorem namespaceNames_namespaceFor (hNames : ∀ name ∈ d.importedNames, name ∈ symbols.names)
    (hNodup : d.importedNames.Nodup) (s : Store) :
    (symbols.namespaceFor d s).1.namespaceNames (symbols.namespaceFor d s).2 = d.importedNames := by
  let opened : Store := { s with namespaces := s.namespaces.push {} }
  let env : Env := { namespaceCell := s.namespaces.size }
  have hCell : env.namespaceCell < opened.namespaces.size := by simp [env, opened]
  have hEmpty : env.namespaceNames opened = [] := by
    simp [Env.namespaceNames, Store.namespaceAt, env, opened, Bindings.names, entryNames]
  change env.namespaceNames (d.importedNames.foldl (importName symbols env) opened) = _
  rw [namespaceNames_foldl d.importedNames hCell hNames (by rwa [hEmpty]), hEmpty, List.nil_append]

/-- What recording a directive's definitions does: all of them are recorded behind what was there,
with what they are bound to, or the first that is not bound is told and nothing is changed. -/
inductive RecordsDefinitions (d : Directive) (env : Env) (s : Store) (symbols : SymbolTable) :
    EStateM.Result Declaration SymbolTable Unit → Prop where
  | all {values : List (String × Value)} {after : SymbolTable}
      (entries_eq : after.entries = symbols.entries ++ values)
      (names_eq : entryNames values = d.definedNames)
      (new : ∀ name ∈ d.definedNames, name ∉ symbols.names)
      (bound : ∀ entry ∈ values, env.namespaceGet? s entry.1 = some entry.2) :
      RecordsDefinitions d env s symbols (.ok () after)
  | none {before later : List Declaration} {decl : Declaration}
      (definitions_eq : d.definitions = before ++ decl :: later)
      (bound : ∀ other ∈ before, ∃ value, env.namespaceGet? s other.name = some value)
      (unbound : env.namespaceGet? s decl.name = Option.none) :
      RecordsDefinitions d env s symbols (.error decl symbols)

/-- If all definitions are bound, they are recorded in the order of their declarations with what
they are bound to. -/
theorem bound_eq_ok {decls : List Declaration} {values : List (String × Value)}
    (h : bound env s decls = .ok values) : entryNames values = decls.map (·.name) ∧
      ∀ entry ∈ values, env.namespaceGet? s entry.1 = some entry.2 := by
  induction decls generalizing values with
  | nil =>
      obtain rfl := Except.ok.inj h
      exact ⟨rfl, by simp⟩
  | cons decl rest ih =>
      cases hValue : env.namespaceGet? s decl.name with
      | none =>
          simp only [bound, hValue] at h
          cases h
      | some value =>
          cases hRest : bound env s rest with
          | error other =>
              simp only [bound, hValue, hRest] at h
              cases h
          | ok others =>
              simp only [bound, hValue, hRest] at h
              obtain rfl := Except.ok.inj h
              obtain ⟨hNames, hBound⟩ := ih hRest
              refine ⟨congrArg (decl.name :: ·) hNames, ?_⟩
              rintro entry (_ | ⟨_, hEntry⟩)
              · exact hValue
              · exact hBound entry hEntry

/-- If some definition is not bound, the first one of these is reported, and all those before it are
bound. -/
theorem bound_eq_error {decls : List Declaration} {decl : Declaration}
    (h : bound env s decls = .error decl) : ∃ before later, decls = before ++ decl :: later ∧
      (∀ other ∈ before, ∃ value, env.namespaceGet? s other.name = some value) ∧
      env.namespaceGet? s decl.name = none := by
  induction decls with
  | nil => cases h
  | cons first rest ih =>
      cases hValue : env.namespaceGet? s first.name with
      | none =>
          simp only [bound, hValue] at h
          obtain rfl := Except.error.inj h
          exact ⟨[], rest, rfl, by simp, hValue⟩
      | some value =>
          cases hRest : bound env s rest with
          | ok others =>
              simp only [bound, hValue, hRest] at h
              cases h
          | error other =>
              simp only [bound, hValue, hRest] at h
              obtain rfl := Except.error.inj h
              obtain ⟨before, later, rfl, hBefore, hUnbound⟩ := ih hRest
              refine ⟨first :: before, later, rfl, ?_, hUnbound⟩
              rintro o (_ | ⟨_, ho⟩)
              · exact ⟨value, hValue⟩
              · exact hBefore o ho

/-- Recording a directive adds all of its definitions behind the old names, or, if one is unbound,
nothing. -/
theorem recordsDefinitions_record (env : Env) (s : Store)
    (hNodup : (symbols.names ++ d.definedNames).Nodup) :
    RecordsDefinitions d env s symbols (record d env s symbols) := by
  cases hBound : bound env s d.definitions with
  | error decl =>
      have hRecord : record d env s symbols = .error decl symbols := by
        rw [record, hBound]
        rfl
      obtain ⟨before, later, hSplit, hBefore, hUnbound⟩ := bound_eq_error hBound
      rw [hRecord]
      exact .none hSplit hBefore hUnbound
  | ok values =>
      have hRecord : record d env s symbols =
          .ok () (values.foldl (fun table entry => table.insert entry.1 entry.2) symbols) := by
        rw [record, hBound]
        rfl
      obtain ⟨hNames, hValues⟩ := bound_eq_ok hBound
      have hNew : (symbols.names ++ entryNames values).Nodup := by rwa [hNames]
      rw [hRecord]
      refine .all (Bindings.entries_foldl_insert values hNew) hNames ?_ hValues
      exact fun name hName hOld => (List.nodup_append.1 hNodup).2.2 name hOld name hName rfl

/-- A directive that was recorded has added its definitions behind all names that were there. -/
theorem RecordsDefinitions.names_eq {after : SymbolTable} {done : Unit}
    (h : RecordsDefinitions d env s symbols (.ok done after)) :
    after.names = symbols.names ++ d.definedNames := by
  cases h with
  | all hEntries hNames =>
      rw [Bindings.names, hEntries, entryNames, List.map_append]
      exact congrArg (symbols.names ++ ·) hNames

end SymbolTable

namespace Run

variable {World : Type} {host : Host (StateM World)} {fuel : Nat} {plan : Plan} {receipt : Bool}

/-- One more directive records one more list of names. -/
theorem names_execute (h : plan.Sound) {done more : List Nat} {i : Nat}
    (hOrder : plan.order = done ++ i :: more) {st st' : RunState} {w w' : World}
    (hNames : st.symbols.names = Schedule.namesOf plan.directives done)
    (hStep : EndsWell (execute host fuel plan st i) w st' w') :
    st'.symbols.names = Schedule.namesOf plan.directives (done ++ [i]) := by
  obtain ⟨d, unit, hItem, hd⟩ := h.exists_item (i := i) (by simp [hOrder])
  obtain ⟨ran, symbols, -, hRecord, -, rfl, -⟩ := endsWell_execute hItem hStep
  have hSplit : plan.order = done ++ [i] ++ more := by rw [hOrder, List.append_assoc]; rfl
  have hNodup := h.nodup_namesOf hSplit
  rw [Schedule.namesOf_concat hd, ← hNames] at hNodup ⊢
  have hRecords := SymbolTable.recordsDefinitions_record (st.start d).1 ran.store hNodup
  rw [hRecord] at hRecords
  exact hRecords.names_eq

/-- After some directives of a run exactly their names are recorded, in order. -/
theorem names_stateAfter (h : plan.Sound) {done more : List Nat}
    (hOrder : plan.order = done ++ more) {st : RunState} {w w' : World}
    (hRun : EndsWell (stateAfter host fuel plan receipt done) w st w') :
    st.symbols.names = Schedule.namesOf plan.directives done := by
  induction done using List.reverseRecOn generalizing more st w' with
  | nil =>
      obtain ⟨rfl, -⟩ := (endsWell_pure_iff _ _ _ _).1 hRun
      rfl
  | append_singleton done i ih =>
      rw [stateAfter, List.foldlM_append] at hRun
      obtain ⟨middle, _, hDone, hLast⟩ := (endsWell_bind_iff _ _ _ _ _).1 hRun
      rw [List.foldlM_cons] at hLast
      obtain ⟨_, _, hStep, hLast⟩ := (endsWell_bind_iff _ _ _ _ _).1 hLast
      obtain ⟨rfl, rfl⟩ := (endsWell_pure_iff _ _ _ _).1 hLast
      have hSplit : plan.order = done ++ i :: more := by rw [hOrder, List.append_assoc]; rfl
      exact names_execute h hSplit (ih hSplit hDone) hStep

end Run

/-- Whenever a directive starts, exactly the definitions of those before it are recorded, and it
sees exactly what it imports; what it leaves is recorded as a whole or not at all. -/
theorem symbols_of_run {dir : String} {sources : List SourceUnit} {warnings rest : Array String}
    {World : Type} {host : Host (StateM World)} {fuel : Nat} {plan : Plan} {receipt : Bool}
    {done more : List Nat} {i : Nat} {st : RunState} {w w' : World}
    (hPlan : Plan.ofSources dir sources warnings = .ok plan rest)
    (hOrder : plan.order = done ++ i :: more)
    (hRun : EndsWell (Run.stateAfter host fuel plan receipt done) w st w') :
    ∃ d unit, plan.item? i = some (d, unit) ∧
      st.symbols.names = Schedule.namesOf plan.directives done ∧
      (∀ name ∈ d.importedNames, name ∈ st.symbols.names) ∧
      (st.start d).1.namespaceNames (st.start d).2.store = d.importedNames ∧
      ∀ outcome ran, (st.start d).2.evaluate fuel unit i (st.start d).1 = (outcome, ran) →
        ran.symbols = st.symbols ∧
          SymbolTable.RecordsDefinitions d (st.start d).1 ran.store ran.symbols
          (SymbolTable.record d (st.start d).1 ran.store ran.symbols) := by
  have h := Plan.sound_of_ofSources hPlan
  obtain ⟨d, unit, hItem, hd⟩ := h.exists_item (i := i) (by simp [hOrder])
  have hNames := Run.names_stateAfter h hOrder hRun
  have hImports : ∀ name ∈ d.importedNames, name ∈ st.symbols.names := by
    rw [hNames]
    exact h.imports_before done i more d hOrder hd
  refine ⟨d, unit, hItem, hNames, hImports, ?_, ?_⟩
  · exact SymbolTable.namespaceNames_namespaceFor hImports
      (h.imports_nodup d (List.mem_of_getElem? hd)) st.store
  · intro outcome ran hRan
    have hSymbols : ran.symbols = st.symbols := by
      have hKept := (st.start d).2.symbols_evaluate fuel unit i (st.start d).1
      rw [hRan] at hKept
      exact hKept
    refine ⟨hSymbols, SymbolTable.recordsDefinitions_record _ _ ?_⟩
    have hSplit : plan.order = done ++ [i] ++ more := by rw [hOrder, List.append_assoc]; rfl
    have hNodup := h.nodup_namesOf hSplit
    rw [hSymbols, hNames, ← Schedule.namesOf_concat hd]
    exact hNodup

/-- Three linked directives, of which the second is about to run: the table holds the names of the
first, and all that the second imports. -/
theorem symbols_of_run_linkedSources : ∃ plan rest st w',
    Plan.ofSources "out" linkedSources #[] = .ok plan rest ∧ plan.order = [0] ++ 1 :: [2] ∧
      EndsWell (Run.stateAfter Host.idle 30 plan true [0]) () st w' ∧
      ∃ d unit, plan.item? 1 = some (d, unit) ∧
        st.symbols.names = Schedule.namesOf plan.directives [0] ∧
        (∀ name ∈ d.importedNames, name ∈ st.symbols.names) ∧
        (st.start d).1.namespaceNames (st.start d).2.store = d.importedNames ∧
        ∀ outcome ran, (st.start d).2.evaluate 30 unit 1 (st.start d).1 = (outcome, ran) →
          ran.symbols = st.symbols ∧
            SymbolTable.RecordsDefinitions d (st.start d).1 ran.store ran.symbols
            (SymbolTable.record d (st.start d).1 ran.store ran.symbols) := by
  have hPasses : Plan.passes linkedSources (fun plan => plan.order == [0, 1, 2] &&
      endsWith (Run.stateAfter Host.idle 30 plan true [0]) fun _ => true) = true := by
    decide +kernel
  obtain ⟨plan, rest, hPlan, hChecks⟩ := Plan.exists_of_passes hPasses
  obtain ⟨hOrder, hEnds⟩ := Bool.and_eq_true_iff.1 hChecks
  obtain ⟨st, hRun, -⟩ := endsWell_of_endsWith hEnds
  have hSplit : plan.order = [0] ++ 1 :: [2] := eq_of_beq hOrder
  exact ⟨plan, rest, st, (), hPlan, hSplit, hRun, symbols_of_run hPlan hSplit hRun⟩

end Metagen
