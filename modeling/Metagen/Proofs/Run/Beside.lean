import Metagen.Proofs.Parallel.Generator
import Metagen.Proofs.Run.Copies
import Metagen.Proofs.Run.Ended
import Metagen.Proofs.Run.Rearranged

/-! Directives in two runs. Behind other directives than in a whole run, a directive runs to its
end as well, generates the same text and defines values that look alike, if it imports data that
looks alike and nobody else has overloaded the macros that it overloads in the whole run. -/

namespace Metagen

open Eval Emission

namespace SymbolTable

variable {symbols symbols' after : SymbolTable} {d d' : Directive} {env env' : Env} {s t : Store}
  {R : Value → Value → Prop}

/-- A directive is recorded if all of its definitions are bound, and the table gets them one after
the other. -/
theorem record_ok_iff {done : Unit} : record d env s symbols = .ok done after ↔
    ∃ values, bound env s d.definitions = .ok values ∧
      values.foldl (fun table entry => table.insert entry.1 entry.2) symbols = after := by
  rw [record]
  cases bound env s d.definitions with
  | error decl =>
      constructor
      · intro h
        cases h
      · rintro ⟨_, h, -⟩
        cases h
  | ok values =>
      change EStateM.Result.ok () _ = _ ↔ _
      simp

/-- Definitions that are bound in one directive are bound in the other if the same names are. -/
theorem exists_bound (hNames : ∀ name,
      Option.Rel R (env.namespaceGet? s name) (env'.namespaceGet? t name))
    {decls : List Declaration} {values : List (String × Value)}
    (h : bound env s decls = .ok values) : ∃ values', bound env' t decls = .ok values' := by
  induction decls generalizing values with
  | nil => exact ⟨[], rfl⟩
  | cons decl rest ih =>
      rcases rel_cases (hNames decl.name) with ⟨hv, -⟩ | ⟨v, w, hv, hw, -⟩
      · simp only [bound, hv] at h
        cases h
      · cases hRest : bound env s rest with
        | error other =>
            simp only [bound, hv, hRest] at h
            cases h
        | ok others =>
            obtain ⟨others', hOthers⟩ := ih hRest
            refine ⟨(decl.name, w) :: others', ?_⟩
            simp only [bound, hw, hOthers]
            rfl

/-- Where the same names are bound, the same definitions can be recorded. -/
theorem exists_record (hNames : ∀ name,
      Option.Rel R (env.namespaceGet? s name) (env'.namespaceGet? t name))
    (hDefinitions : d'.definitions = d.definitions)
    (h : record d env s symbols = .ok () after) (symbols' : SymbolTable) :
    ∃ after', record d' env' t symbols' = .ok () after' := by
  obtain ⟨values, hValues, -⟩ := record_ok_iff.1 h
  obtain ⟨values', hValues'⟩ := exists_bound hNames hValues
  exact ⟨_, record_ok_iff.2 ⟨values', hDefinitions ▸ hValues', rfl⟩⟩

/-- What is recorded for a definition is what it is bound to. -/
theorem namespaceGet?_of_record (hNodup : (symbols.names ++ d.definedNames).Nodup)
    (h : record d env s symbols = .ok () after) {name : String} {v : Value}
    (hName : name ∈ d.definedNames) (hv : after.get? name = some v) :
    env.namespaceGet? s name = some v := by
  have hRecords := recordsDefinitions_record env s hNodup
  rw [h] at hRecords
  refine (hRecords.get?_cases hv).resolve_left fun hOld => ?_
  have hMem := (symbols.exists_get?_iff name).1 ⟨v, hOld⟩
  exact (List.nodup_append.1 hNodup).2.2 name hMem name hName rfl

end SymbolTable

namespace RunState

variable {st st' ran : RunState} {fuel number : Nat} {unit : CompiledUnit} {env env' : Env}

/-- A script that was evaluated well has run well from the scopes of its directive, and its store
and emitter are kept. -/
theorem evaluate_ok_iff : st.evaluate fuel unit number env = (.ok (), ran) ↔
    ∃ m, runProgram fuel unit.program number env
        { store := st.store, emitter := st.emitter, env } = .ok () m ∧
      { st with store := m.store, emitter := m.emitter } = ran := by
  unfold evaluate
  dsimp only
  rw [runProgram_of_scopes]
  cases runProgram fuel unit.program number env
    { store := st.store, emitter := st.emitter, env } with
  | ok done m => simp
  | error stop m => simp

/-- While a script runs its directive overloads more macros. -/
theorem growsTo_evaluate (h : st.evaluate fuel unit number env = (.ok (), ran)) :
    st.emitter.ledger.GrowsTo ran.emitter.ledger := by
  obtain ⟨m, hRun, rfl⟩ := evaluate_ok_iff.1 h
  obtain ⟨_, n, hEnds, -, -⟩ :=
    Pairing.lockstep_runProgram (Pairing.envs_self env) fuel unit.program number number _ _
      ⟨Pairing.stores_self _, rfl, Pairing.envs_self env, rfl, rfl⟩ () m hRun
  have hLeads := hEnds.leads
  rw [hEnds.ends] at hRun
  obtain ⟨-, rfl⟩ := EStateM.Result.ok.inj hRun
  exact hLeads

/-- The script of a directive ends also in a paired store, and behind others that have claimed none
of the macros that it overloads. -/
theorem exists_evaluate {g : Pairing} (hStores : g.Stores st.store st'.store)
    (hEnv : g.Envs env env') {l : Ledger} (hEmitter : st'.emitter = st.emitter.withLedger l)
    {claimed : String → Option String} (hVaries : st.emitter.ledger.Varies claimed l)
    (h : st.evaluate fuel unit number env = (.ok (), ran))
    (hAdmits : ran.emitter.ledger.Admits claimed) (number' : Nat) :
    ∃ ran' l', st'.evaluate fuel unit number' env' = (.ok (), ran') ∧
      g.Stores ran.store ran'.store ∧ ran'.emitter = ran.emitter.withLedger l' ∧
      ran.emitter.ledger.Varies claimed l' := by
  obtain ⟨m, hRun, rfl⟩ := evaluate_ok_iff.1 h
  let n : Machine := { store := st'.store, emitter := st.emitter, env := env' }
  have hMachines : g.Machines { store := st.store, emitter := st.emitter, env } n :=
    ⟨hStores, rfl, hEnv, rfl, rfl⟩
  obtain ⟨_, n', hEnds, hNext, -⟩ :=
    Pairing.lockstep_runProgram hEnv fuel unit.program number number' _ n hMachines () m hRun
  have hAdmits' : n'.emitter.ledger.Admits claimed := hNext.emitter ▸ hAdmits
  obtain ⟨_, hVaried, l', hLater, rfl⟩ :=
    hEnds.varied claimed { n with emitter := n.emitter.withLedger l } ⟨l, hVaries, rfl⟩ hAdmits'
  have hSame : n'.emitter = m.emitter := hNext.emitter.symm
  change n'.emitter.ledger.Varies claimed l' at hLater
  rw [hSame] at hLater
  refine ⟨{ st' with store := n'.store, emitter := n'.emitter.withLedger l' }, l',
    evaluate_ok_iff.2 ⟨{ n' with emitter := n'.emitter.withLedger l' }, ?_, rfl⟩, hNext.stores, ?_,
    hLater⟩
  · rw [hEmitter]
    exact hVaried
  · exact congrArg (·.withLedger l') hSame

end RunState

namespace Run

variable {fuel : Nat} {plan : Plan} {receipt : Bool} {i k : Nat} {st st' ran : RunState}
  {c : FinishedDirective} {unit : CompiledUnit} {done : List Nat} {name owner : String}

/-- The functions are those of the scripts, and receipts are asked for as before. -/
theorem After.fit (h : After fuel plan receipt done st) :
    FunctionsFit plan.scripts st.store ∧ st.emitter.receipt = receipt := by
  induction done using List.reverseRecOn generalizing st with
  | nil =>
      obtain ⟨_, h⟩ := h
      cases h
      exact ⟨fun _ hClosure => (Array.not_mem_empty _ hClosure).elim, rfl⟩
  | append_singleton done i ih =>
      obtain ⟨middle, c, hDone, hLast⟩ := After.concat_iff.1 h
      obtain ⟨hFit, hReceipt⟩ := ih hDone
      obtain ⟨unit, ran, time, hItem, hRan, -, hStore, hFinish⟩ := hLast.parts
      have hEvaluates := RunState.evaluates hItem hFit fuel
      rw [hRan] at hEvaluates
      refine ⟨hStore ▸ hEvaluates.functions, ?_⟩
      have hSame := ran.emitter.receipt_finishAt time
      rw [hFinish] at hSame
      exact hSame.trans (hEvaluates.receipt.trans hReceipt)

/-- In any surroundings a run comes to the same state, but for the entries. -/
theorem After.eq_of_endsWell {World : Type} {host : Host (StateM World)} {w w' : World}
    (h : After fuel plan receipt done st)
    (hRun : EndsWell (stateAfter host fuel plan receipt done) w st' w') :
    ∃ entries, st' = { st with entries } := by
  induction done using List.reverseRecOn generalizing st st' w' with
  | nil =>
      obtain ⟨_, h⟩ := h
      cases h
      obtain ⟨rfl, -⟩ := (endsWell_pure_iff _ _ _ _).1 hRun
      exact ⟨[], rfl⟩
  | append_singleton done i ih =>
      obtain ⟨middle, c, hDone, hLast⟩ := After.concat_iff.1 h
      rw [stateAfter, List.foldlM_append] at hRun
      obtain ⟨middle', _, hDone', hRun⟩ := (endsWell_bind_iff _ _ _ _ _).1 hRun
      rw [List.foldlM_cons] at hRun
      obtain ⟨final, _, hStep, hRun⟩ := (endsWell_bind_iff _ _ _ _ _).1 hRun
      obtain ⟨rfl, -⟩ := (endsWell_pure_iff _ _ _ _).1 hRun
      obtain ⟨entries, rfl⟩ := ih hDone hDone'
      obtain ⟨unit, ran, time, hItem, hRan, hRecord, hStore, hFinish⟩ := hLast.parts
      obtain ⟨ran', symbols', hRan', hRecord', hStore', hSymbols', time', hEmitter'⟩ :=
        endsWell_execute hItem hStep
      obtain ⟨m, hEnds, rfl⟩ := RunState.evaluate_ok_iff.1 hRan
      obtain ⟨m', hEnds', rfl⟩ := RunState.evaluate_ok_iff.1 hRan'
      obtain ⟨-, rfl⟩ := EStateM.Result.ok.inj (hEnds.symm.trans hEnds')
      obtain ⟨-, hSymbols⟩ := EStateM.Result.ok.inj (hRecord.symm.trans hRecord')
      have hEmitter := (congrArg Prod.snd hFinish).symm.trans
        ((m.emitter.snd_finishAt time).trans (m.emitter.snd_finishAt time').symm)
      have hSameStore : st.store = final.store := hStore.trans hStore'.symm
      have hSameEmitter : st.emitter = final.emitter := hEmitter.trans hEmitter'.symm
      have hSameSymbols : st.symbols = final.symbols := hSymbols.trans hSymbols'.symm
      refine ⟨final.entries, ?_⟩
      rw [hSameStore, hSameEmitter, hSameSymbols]

/-- Macros stay with the directives that overload them. -/
theorem RunsToEnd.ownerOf?_eq (h : RunsToEnd fuel plan i st c st')
    (hOwner : st.emitter.ledger.ownerOf? name = some owner) :
    st'.emitter.ledger.ownerOf? name = some owner := by
  obtain ⟨unit, ran, time, -, hRan, -, -, hFinish⟩ := h.parts
  have hSame := ran.emitter.ownerOf?_finishAt time name
  rw [hFinish] at hSame
  exact hSame.trans ((RunState.growsTo_evaluate hRan).ownerOf?_eq hOwner)

/-- What a directive overloads is its own from then on. -/
theorem ownerOf?_of_overloaded {d : Directive} {time : String} {generated : Option Generated}
    {emitter : Emitter}
    (hRan : (st.start d).2.evaluate fuel unit i (st.start d).1 = (.ok (), ran))
    (hFinish : ran.emitter.finishAt time = (generated, emitter))
    (hName : name ∈ ran.emitter.ledger.overloaded) :
    emitter.ledger.ownerOf? name = some d.label := by
  have hSame := ran.emitter.ownerOf?_finishAt time name
  rw [hFinish] at hSame
  exact hSame.trans ((RunState.growsTo_evaluate hRan).owned name hName List.not_mem_nil).1

/-- Nothing that is recorded in a run has a function in it, however far the run comes. -/
def ExportsData (fuel : Nat) (plan : Plan) (receipt : Bool) : Prop :=
  ∀ done more st, plan.order = done ++ more → After fuel plan receipt done st →
    ∀ name v, st.symbols.get? name = some v → st.store.IsData v

/-- If no directive makes a function, nothing that is recorded has a function in it. -/
theorem exportsData_of_no_functions (hSound : plan.Sound)
    (h : ∀ done more st, plan.order = done ++ more → After fuel plan receipt done st →
      st.store.functions.size = 0) : ExportsData fuel plan receipt := by
  intro done more st hOrder hAfter name v hv f hHolds
  have hMade := hAfter.made hSound hOrder
  have hHas : st.store.HasCell (.function f) := by
    rcases hHolds with rfl | ⟨c, -, hf⟩
    · exact hMade.hasValue name _ hv _ rfl
    · exact hMade.closed c.cell _ (Store.mem_links_of_mem_contents hf rfl)
  exact Nat.not_lt_zero f (h done more st hOrder hAfter ▸ hHas)

namespace Course

variable {r : Course fuel plan receipt} {v w : Value}

/-- Whoever owns a macro at some point of a run owns it at the end. -/
theorem ownerOf?_last {k : Nat} (hk : k ≤ plan.order.length)
    (hOwner : (r.state k).emitter.ledger.ownerOf? name = some owner) :
    r.last.emitter.ledger.ownerOf? name = some owner := by
  have hLater : ∀ b, k ≤ b → b ≤ plan.order.length →
      (r.state b).emitter.ledger.ownerOf? name = some owner := by
    intro b hkb
    induction hkb with
    | refl => exact fun _ => hOwner
    | @step b _ ih =>
        intro hb
        obtain ⟨c, -, hStep⟩ := r.step b _ (List.getElem?_eq_getElem hb)
        exact hStep.ownerOf?_eq (ih (Nat.le_of_succ_le hb))
  exact hLater _ hk (Nat.le_refl _)

/-- A state of another run: what is recorded looks like what the whole run records, and whoever
overloads a macro overloads it in the whole run as well. -/
structure Beside (r : Course fuel plan receipt) (st : RunState) : Prop where
  recorded : ∀ name w, st.symbols.get? name = some w →
    ∃ v, r.Settled name v ∧ Alike r.last.store v st.store w
  owners : ∀ name owner, st.emitter.ledger.ownerOf? name = some owner →
    r.last.emitter.ledger.ownerOf? name = some owner

/-- A directive that is next in another run, and its turn in the whole run. -/
structure Turn (r : Course fuel plan false) (plan' : Plan) (st : RunState) (j : Nat)
    (d : Directive) (unit : CompiledUnit) (k i : Nat) (c : FinishedDirective) : Prop where
  sound : plan.Sound
  sound' : plan'.Sound
  beside : r.Beside st
  after : ∃ done more, plan'.order = done ++ j :: more ∧ After fuel plan' false done st
  item' : plan'.item? j = some (d, unit)
  order : plan.order[k]? = some i
  item : plan.item? i = some (c.directive, unit)
  runs : RunsToEnd fuel plan i (r.state k) c (r.state (k + 1))
  same : c.directive.Same d

namespace Turn

variable {r : Course fuel plan false} {plan' : Plan} {d : Directive} {j : Nat} {time : String}

theorem lt (h : r.Turn plan' st j d unit k i c) : k < plan.order.length :=
  (List.getElem?_eq_some_iff.1 h.order).1

theorem made (h : r.Turn plan' st j d unit k i c) : st.Made := by
  obtain ⟨done, more, hOrder, hAfter⟩ := h.after
  exact hAfter.made h.sound' hOrder

/-- What the directive imports looks alike in both runs. -/
theorem importAlike (h : r.Turn plan' st j d unit k i c) :
    SymbolTable.ImportAlike (r.state k).symbols (r.state k).store st.symbols st.store
      c.directive.importedNames := by
  intro name hName
  obtain ⟨done, more, hOrder, hAfter⟩ := h.after
  have hHere := hAfter.imports_recorded h.sound' hOrder (Plan.directive_of_item? h.item') name
    (h.same.imports.mem_iff.1 hName)
  have hThere := (r.after (Nat.le_of_lt h.lt)).imports_recorded h.sound (split h.order)
    (Plan.directive_of_item? h.item) name hName
  obtain ⟨w, hw⟩ := (st.symbols.exists_get?_iff name).2 hHere
  obtain ⟨v, hSettled, hAlike⟩ := h.beside.recorded name w hw
  obtain ⟨hv, hData, hLast⟩ := hSettled.alike k (Nat.le_of_lt h.lt) hThere
  exact ⟨v, w, hv, hw, hLast.trans hAlike, hData⟩

/-- At the same turn of both runs the directive imports data, because its plan exports nothing
else. -/
theorem importsData (h : r.Turn plan' st j d unit k i c) :
    (r.state k).ImportsData c.directive := by
  intro name hName v hv
  obtain ⟨v', w, hv', -, -, hData⟩ := h.importAlike name hName
  obtain rfl := Option.some.inj (hv.symm.trans hv')
  exact hData

theorem importsData' (h : r.Turn plan' st j d unit k i c) : st.ImportsData d := by
  intro name hName w hw
  obtain ⟨v, w', hv, hw', hAlike, hData⟩ := h.importAlike name (h.same.imports.mem_iff.2 hName)
  obtain rfl := Option.some.inj (hw.symm.trans hw')
  have hMade := r.made h.sound (Nat.le_of_lt h.lt)
  exact hAlike.isData hMade.closed (hMade.hasValue name v hv) hData

/-- Both runs start the directive in the same way, but for who has overloaded what. -/
theorem emitter_eq (h : r.Turn plan' st j d unit k i c) : (st.start d).2.emitter =
    ((r.state k).start c.directive).2.emitter.withLedger (st.start d).2.emitter.ledger := by
  obtain ⟨done, more, hOrder, hAfter⟩ := h.after
  have hReceipt := hAfter.fit.2
  have hReceipt' := (r.after (Nat.le_of_lt h.lt)).fit.2
  have hOwner : (st.start d).2.emitter.ledger.owner = c.directive.label := h.same.label
  change st.emitter.reset d.label _ = ((r.state k).emitter.reset c.directive.label _).withLedger _
  rw [h.same.include?, h.same.file, h.same.label]
  unfold Emitter.reset Emitter.withLedger
  rw [hReceipt, hReceipt', hOwner]
  rfl

/-- What the directive overloads is claimed by no other one. -/
theorem admits (h : r.Turn plan' st j d unit k i c)
    (hRan : ((r.state k).start c.directive).2.evaluate fuel unit i
      ((r.state k).start c.directive).1 = (.ok (), ran))
    (hFinish : ran.emitter.finishAt time = (c.generated, (r.state (k + 1)).emitter)) :
    ran.emitter.ledger.Admits st.emitter.ledger.ownerOf? := by
  intro name hName owner hOwner
  have hOwn := ownerOf?_last (r := r) h.lt (ownerOf?_of_overloaded hRan hFinish hName)
  have hLabel : ran.emitter.ledger.owner = c.directive.label :=
    (RunState.growsTo_evaluate hRan).owner
  rw [hLabel]
  exact Option.some.inj ((h.beside.owners name owner hOwner).symm.trans hOwn)

/-- The script of the directive ends in the other run as well. -/
theorem evaluates (h : r.Turn plan' st j d unit k i c)
    (hRan : ((r.state k).start c.directive).2.evaluate fuel unit i
      ((r.state k).start c.directive).1 = (.ok (), ran))
    (hFinish : ran.emitter.finishAt time = (c.generated, (r.state (k + 1)).emitter)) :
    ∃ (g : Pairing) (ran' : RunState) (l : Ledger),
      (st.start d).2.evaluate fuel unit j (st.start d).1 = (.ok (), ran') ∧
      g.Stores ran.store ran'.store ∧
      g.Envs ((r.state k).start c.directive).1 (st.start d).1 ∧
      ran'.emitter = ran.emitter.withLedger l ∧
      ran.emitter.ledger.Varies st.emitter.ledger.ownerOf? l := by
  have hMade := r.made h.sound (Nat.le_of_lt h.lt)
  have hMember := List.mem_of_getElem? (Plan.directive_of_item? h.item)
  obtain ⟨g, hStores, hEnvs⟩ := SymbolTable.exists_pairing_namespaceFor hMade.closed
    hMade.hasValue h.made.closed h.made.hasValue (h.sound.imports_nodup _ hMember) h.same.imports
    h.importAlike
  have hVaries : ((r.state k).start c.directive).2.emitter.ledger.Varies
      st.emitter.ledger.ownerOf? (st.start d).2.emitter.ledger :=
    ⟨h.same.label, rfl, fun _ hNone => (List.not_mem_nil hNone).elim, fun _ _ => rfl⟩
  obtain ⟨ran', l, hRan', hStores', hEmitter, hLater⟩ :=
    RunState.exists_evaluate hStores hEnvs h.emitter_eq hVaries hRan (h.admits hRan hFinish) j
  exact ⟨g, ran', l, hRan', hStores', hEnvs, hEmitter, hLater⟩

/-- A directive that runs to its end in one run does not stop the other one. -/
theorem not_stopsAt (h : r.Turn plan' st j d unit k i c) (failure : Failure) :
    ¬ StopsAt fuel plan' j st d failure := by
  obtain ⟨unit', ran, time, hItem, hRan, hRecord, -, hFinish⟩ := h.runs.parts
  obtain ⟨-, rfl⟩ := Prod.mk.inj (Option.some.inj (hItem.symm.trans h.item))
  obtain ⟨g, ran', l, hRan', hStores, hEnvs, -⟩ := h.evaluates hRan hFinish
  intro hStops
  cases hStops with
  | failed item script =>
      obtain ⟨-, rfl⟩ := Prod.mk.inj (Option.some.inj (item.symm.trans h.item'))
      rw [hRan'] at script
      cases script
  | outOfFuel item script =>
      obtain ⟨-, rfl⟩ := Prod.mk.inj (Option.some.inj (item.symm.trans h.item'))
      rw [hRan'] at script
      cases script
  | @unbound _ ran'' _ _ item script missing =>
      obtain ⟨-, rfl⟩ := Prod.mk.inj (Option.some.inj (item.symm.trans h.item'))
      rw [hRan'] at script
      obtain rfl : ran' = ran'' := congrArg Prod.snd script
      obtain ⟨after, hRecord'⟩ := SymbolTable.exists_record
        (fun name => hStores.namespaceGet? hEnvs name) h.same.definitions hRecord ran'.symbols
      rw [missing] at hRecord'
      cases hRecord'

/-- A directive that has run to its end in both runs: what it defines stands for each other, it has
generated the same, and what it has overloaded it has overloaded in both. -/
structure BothEnd (r : Course fuel plan false) (k : Nat) (c : FinishedDirective) (st st' : RunState)
    (c' : FinishedDirective) (g : Pairing) : Prop where
  stores : g.Stores (r.state (k + 1)).store st'.store
  values : ∀ name ∈ c.directive.definedNames, ∀ v w, (r.state (k + 1)).symbols.get? name = some v →
    st'.symbols.get? name = some w → g.Values v w
  generated : c'.generated = c.generated
  owners : ∀ name owner, st'.emitter.ledger.ownerOf? name = some owner →
    st.emitter.ledger.ownerOf? name = some owner ∨
      r.last.emitter.ledger.ownerOf? name = some owner

theorem nodup (h : r.Turn plan' st j d unit k i c) :
    (st.symbols.names ++ d.definedNames).Nodup := by
  obtain ⟨done, more, hOrder, hAfter⟩ := h.after
  have hSplit : plan'.order = done ++ [j] ++ more := by rw [hOrder, List.append_assoc]; rfl
  have hNodup := h.sound'.nodup_namesOf hSplit
  rwa [Schedule.namesOf_concat (Plan.directive_of_item? h.item'),
    ← hAfter.names_eq h.sound' hOrder] at hNodup

/-- A directive that runs to its end in both runs defines what stands for each other, generates the
same, and has overloaded the same macros in both. -/
theorem bothEnd {c' : FinishedDirective} (h : r.Turn plan' st j c'.directive unit k i c)
    (hStep' : RunsToEnd fuel plan' j st c' st') : ∃ g, BothEnd r k c st st' c' g := by
  obtain ⟨unit', ran, time, hItem, hRan, hRecord, hStore, hFinish⟩ := h.runs.parts
  obtain ⟨-, rfl⟩ := Prod.mk.inj (Option.some.inj (hItem.symm.trans h.item))
  obtain ⟨unit', ran', time', hItem', hRan', hRecord', hStore', hFinish'⟩ := hStep'.parts
  obtain ⟨-, rfl⟩ := Prod.mk.inj (Option.some.inj (hItem'.symm.trans h.item'))
  obtain ⟨g, ran'', l, hSame, hStores, hEnvs, hEmitter, hVaries⟩ := h.evaluates hRan hFinish
  obtain rfl : ran'' = ran' := congrArg Prod.snd (hSame.symm.trans hRan')
  refine ⟨g, hStore ▸ hStore' ▸ hStores, fun name hName v w hv hw => ?_, ?_,
    fun name owner hOwner => ?_⟩
  · have hBound := SymbolTable.namespaceGet?_of_record
      (r.nodup_next h.sound h.order h.runs) hRecord hName hv
    have hBound' := SymbolTable.namespaceGet?_of_record h.nodup hRecord'
      (h.same.definedNames ▸ hName) hw
    have hRel := hStores.namespaceGet? hEnvs name
    rw [hBound, hBound', Option.rel_some_some] at hRel
    exact hRel
  · have hReceipt : ran.emitter.receipt = false := by
      have hKept := ran.emitter.receipt_finishAt time
      rw [hFinish] at hKept
      exact hKept.symm.trans (r.after h.lt).fit.2
    have hReceipt' : ran''.emitter.receipt = false := by
      rw [hEmitter]
      exact hReceipt
    have hText := ran.emitter.generated_finishAt hReceipt time
    have hText' := ran''.emitter.generated_finishAt hReceipt' time'
    have hOverloads : (ran.emitter.withLedger l).overloads = ran.emitter.overloads :=
      hVaries.overloads
    rw [hFinish] at hText
    rw [hFinish', hEmitter, hOverloads] at hText'
    exact hText'.trans hText.symm
  · have hKept := ran''.emitter.ownerOf?_finishAt time' name
    rw [hFinish', hEmitter] at hKept
    have hLedger : l.ownerOf? name = some owner := hKept.symm.trans hOwner
    by_cases hName : name ∈ ran.emitter.ledger.overloaded
    · right
      have hOwn := hVaries.owned name hName
      rw [(RunState.growsTo_evaluate hRan).owner] at hOwn
      rw [← hLedger, hOwn]
      exact ownerOf?_last h.lt (ownerOf?_of_overloaded hRan hFinish hName)
    · exact .inl ((hVaries.others name hName).symm.trans hLedger)

variable {c' : FinishedDirective}

theorem made' (h : r.Turn plan' st j c'.directive unit k i c)
    (hStep' : RunsToEnd fuel plan' j st c' st') : st'.Made := by
  obtain ⟨done, more, hOrder, hAfter⟩ := h.after
  have hSplit : plan'.order = done ++ [j] ++ more := by rw [hOrder, List.append_assoc]; rfl
  exact (After.concat_iff.2 ⟨st, c', hAfter, hStep'⟩).made h.sound' hSplit

/-- What a directive defines without functions in it, in one of the runs, looks alike in both, and
is settled. -/
theorem settled (h : r.Turn plan' st j c'.directive unit k i c)
    (hStep' : RunsToEnd fuel plan' j st c' st')
    (hData : (∀ name v, (r.state (k + 1)).symbols.get? name = some v →
        (r.state (k + 1)).store.IsData v) ∨
      ∀ name w, st'.symbols.get? name = some w → st'.store.IsData w)
    {name : String} {w : Value} (hName : name ∈ c'.directive.definedNames)
    (hw : st'.symbols.get? name = some w) :
    ∃ v, r.Settled name v ∧ Alike r.last.store v st'.store w := by
  obtain ⟨g, hBoth⟩ := h.bothEnd hStep'
  have hMade := r.made h.sound h.lt
  have hMade' := h.made' hStep'
  have hThere : ∀ {n}, n ∈ c.directive.definedNames →
      ∃ v, (r.state (k + 1)).symbols.get? n = some v := by
    intro n hn
    apply ((r.state (k + 1)).symbols.exists_get?_iff n).2
    rw [h.runs.names_eq (r.nodup_next h.sound h.order h.runs)]
    exact List.mem_append_right _ hn
  have hHere : ∀ {n}, n ∈ c.directive.definedNames → ∃ w, st'.symbols.get? n = some w := by
    intro n hn
    apply (st'.symbols.exists_get?_iff n).2
    rw [hStep'.names_eq h.nodup, h.same.definedNames]
    exact List.mem_append_right _ hn
  have hAlike : ∀ n ∈ c.directive.definedNames, ∀ v w,
      (r.state (k + 1)).symbols.get? n = some v → st'.symbols.get? n = some w →
        Alike (r.state (k + 1)).store v st'.store w := by
    intro n hn v w hv hw
    exact hBoth.stores.alike (hBoth.values n hn v w hv hw) hMade.closed (hMade.hasValue n v hv)
      hMade'.closed (hMade'.hasValue n w hw) (hData.imp (· n v hv) (· n w hw))
  have hExports : ∀ n ∈ c.directive.definedNames, ∀ v,
      (r.state (k + 1)).symbols.get? n = some v → (r.state (k + 1)).store.IsData v := by
    intro n hn v hv
    obtain ⟨w, hw⟩ := hHere hn
    rcases hData with hData | hData
    · exact hData n v hv
    · exact (hAlike n hn v w hv hw).symm.isData hMade'.closed (hMade'.hasValue n w hw)
        (hData n w hw)
  have hDefined : name ∈ c.directive.definedNames := h.same.definedNames ▸ hName
  obtain ⟨v, hv⟩ := hThere hDefined
  have hSettled := r.settled h.sound h.order h.runs h.importsData hExports hDefined hv
  have hRecorded := ((r.state (k + 1)).symbols.exists_get?_iff name).1 ⟨v, hv⟩
  obtain ⟨-, -, hLast⟩ := hSettled.alike (k + 1) h.lt hRecorded
  exact ⟨v, hSettled, hLast.symm.trans (hAlike name hDefined v w hv hw)⟩

/-- The next state stands beside the whole run as well. -/
theorem beside_next (h : r.Turn plan' st j c'.directive unit k i c)
    (hStep' : RunsToEnd fuel plan' j st c' st')
    (hData : (∀ name v, (r.state (k + 1)).symbols.get? name = some v →
        (r.state (k + 1)).store.IsData v) ∨
      ∀ name w, st'.symbols.get? name = some w → st'.store.IsData w) : r.Beside st' := by
  obtain ⟨g, hBoth⟩ := h.bothEnd hStep'
  refine ⟨fun name w hw => ?_, fun name owner hOwner => ?_⟩
  · rcases hStep'.recorded_cases h.nodup hw with hOld | hName
    · -- What was recorded before is as it was.
      obtain ⟨v, hSettled, hAlike⟩ := h.beside.recorded name w hOld
      have hHas := h.made.hasValue name w hOld
      refine ⟨v, hSettled, hAlike.trans (Store.alike_of_agrees h.made.closed hHas fun e he => ?_)⟩
      exact hStep'.agrees h.made h.nodup h.importsData'
        (Store.hasCell_of_mem_reached h.made.closed hHas he)
    · exact h.settled hStep' hData hName hw
  · rcases hBoth.owners name owner hOwner with hOld | hNew
    · exact h.beside.owners name owner hOld
    · exact hNew

end Turn

variable {r : Course fuel plan false} {plan' : Plan} {more : List Nat} {j : Nat} {d : Directive}

/-- What is next in a run of the same directives has had its turn in the whole run. -/
theorem exists_turn (hSound : plan.Sound) (hSound' : plan'.Sound) (hWithin : plan'.Within plan)
    (h : r.Beside st) (hOrder : plan'.order = done ++ j :: more)
    (hAfter : After fuel plan' false done st) (hItem : plan'.item? j = some (d, unit)) :
    ∃ k i, ∃ c ∈ r.completed, r.Turn plan' st j d unit k i c := by
  obtain ⟨i, e, hThere, hSame⟩ := hWithin j d unit hItem
  have hDirective := (List.getElem?_eq_some_iff.1 (Plan.directive_of_item? hThere)).1
  have hMember : i ∈ plan.order := hSound.order_perm.mem_iff.2 (List.mem_range.2 hDirective)
  obtain ⟨k, hk⟩ := List.mem_iff_getElem?.1 hMember
  obtain ⟨c, hc, hRuns⟩ := r.step k i hk
  obtain ⟨unit', ran, time, hParts, -⟩ := hRuns.parts
  obtain ⟨rfl, rfl⟩ := Prod.mk.inj (Option.some.inj (hParts.symm.trans hThere))
  exact ⟨k, i, c, List.mem_of_getElem? hc, hSound, hSound', h, ⟨done, more, hOrder, hAfter⟩, hItem,
    hk, hThere, hRuns, hSame.symm⟩

/-- In another run of the same directives every state stands beside the whole run, as long as
exports of one of the two have no functions in them, and the same has been generated. -/
theorem beside_of_allRunToEnd (hSound : plan.Sound) (hSound' : plan'.Sound)
    (hWithin : plan'.Within plan)
    (hData : ExportsData fuel plan false ∨ ExportsData fuel plan' false)
    (hOrder : plan'.order = done ++ more) {completed : List FinishedDirective}
    (h : AllRunToEnd fuel plan' { emitter := { receipt := false } } done completed st) :
    r.Beside st ∧ ∀ c' ∈ completed, ∃ c ∈ r.completed, c.directive.Same c'.directive ∧
      c'.generated = c.generated := by
  induction done using List.reverseRecOn generalizing more completed st with
  | nil =>
      cases h
      refine ⟨⟨fun name w hw => ?_, fun name owner hOwner => ?_⟩, fun _ hNone => ?_⟩
      · cases hw
      · cases hOwner
      · cases hNone
  | append_singleton done j ih =>
      obtain ⟨before, last, middle, rfl, hBefore, hLast⟩ := allRunToEnd_append_iff.1 h
      cases hLast with
      | @cons _ _ _ _ _ c' _ hStep hNone =>
          cases hNone
          have hSplit : plan'.order = done ++ j :: more := by rw [hOrder, List.append_assoc]; rfl
          obtain ⟨hBeside, hGenerated⟩ := ih hSplit hBefore
          obtain ⟨unit, ran, time, hItem, -⟩ := hStep.parts
          obtain ⟨k, i, c, hc, hTurn⟩ :=
            exists_turn hSound hSound' hWithin hBeside hSplit ⟨before, hBefore⟩ hItem
          obtain ⟨g, hBoth⟩ := hTurn.bothEnd hStep
          refine ⟨hTurn.beside_next hStep ?_, fun o ho => ?_⟩
          · refine hData.imp (fun hData => ?_) fun hData => ?_
            · exact hData _ _ _ (List.take_append_drop (k + 1) plan.order).symm (r.after hTurn.lt)
            · exact hData _ _ _ hOrder ⟨_, h⟩
          · rcases List.mem_append.1 ho with hOld | hNew
            · exact hGenerated o hOld
            · obtain rfl := List.mem_singleton.1 hNew
              exact ⟨c, hc, hTurn.same, hBoth.generated⟩

end Course

end Run

end Metagen
