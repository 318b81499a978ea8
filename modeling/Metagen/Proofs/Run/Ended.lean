import Metagen.Proofs.Run.Effects
import Metagen.Proofs.Run.Isolation
import Metagen.Proofs.Value.Alike

/-! States of a run after directives that have run to their ends. Directives whose imports have no
functions in them change nothing that was there before, and no way leads from there to what they
make: what they define, if there is no function in it, stays what it is to the end of the run. -/

namespace Metagen

namespace Guard

/-- Everything that has been made is guarded. -/
def everything (s : Store) (hClosed : s.Closed) : Guard where
  base := s
  closed := hClosed
  guards := s.HasCell
  made _ := id

theorem keeps_everything {s : Store} (hClosed : s.Closed) : (everything s hClosed).Keeps s :=
  ⟨.refl s, fun x _ => .refl s x, fun _ hx _ hy => (hx (Store.hasCell_of_mem_links hy)).elim⟩

/-- Values without functions are harmless. -/
theorem harmless_of_isData {g : Guard} {v : Value} (hv : g.base.HasValue v)
    (hData : g.base.IsData v) : g.Harmless v := ⟨hv, fun f hHolds => (hData f hHolds).elim⟩

end Guard

/-- Cells and recorded values lead to cells that have been made. -/
structure RunState.Made (st : RunState) : Prop where
  closed : st.store.Closed
  hasValue : ∀ name v, st.symbols.get? name = some v → st.store.HasValue v

/-- Nothing that the directive imports has a function in it. -/
def RunState.ImportsData (st : RunState) (d : Directive) : Prop :=
  ∀ name ∈ d.importedNames, ∀ v, st.symbols.get? name = some v → st.store.IsData v

namespace Run

variable {fuel : Nat} {plan : Plan} {receipt : Bool} {i : Nat} {st st' : RunState}
    {c : FinishedDirective}
  {done more : List Nat} {completed : List FinishedDirective}

/-- What running to the end consists of: the start, the evaluation, the recording and the finished
file. -/
theorem RunsToEnd.parts (h : RunsToEnd fuel plan i st c st') :
    ∃ unit ran time, plan.item? i = some (c.directive, unit) ∧
      (st.start c.directive).2.evaluate fuel unit i (st.start c.directive).1 = (.ok (), ran) ∧
      SymbolTable.record c.directive (st.start c.directive).1 ran.store st.symbols =
        .ok () st'.symbols ∧
      st'.store = ran.store ∧ ran.emitter.finishAt time = (c.generated, st'.emitter) := by
  cases h with
  | @intro unit ran symbols emitter time item script recorded generated target =>
      have hSymbols : ran.symbols = st.symbols := by
        have hKept := (st.start c.directive).2.symbols_evaluate fuel unit i
          (st.start c.directive).1
        rw [script] at hKept
        exact hKept
      exact ⟨unit, ran, time, item, script, hSymbols ▸ recorded, rfl, generated⟩

/-- Its names are recorded behind those that were recorded. -/
theorem RunsToEnd.names_eq (h : RunsToEnd fuel plan i st c st')
    (hNodup : (st.symbols.names ++ c.directive.definedNames).Nodup) :
    st'.symbols.names = st.symbols.names ++ c.directive.definedNames := by
  obtain ⟨unit, ran, time, -, -, hRecord, -⟩ := h.parts
  have hRecords := SymbolTable.recordsDefinitions_record (st.start c.directive).1 ran.store hNodup
  rw [hRecord] at hRecords
  exact hRecords.names_eq

/-- What is recorded then was recorded before, or it is what the directive defines. -/
theorem RunsToEnd.recorded_cases (h : RunsToEnd fuel plan i st c st')
    (hNodup : (st.symbols.names ++ c.directive.definedNames).Nodup) {name : String} {v : Value}
    (hv : st'.symbols.get? name = some v) :
    st.symbols.get? name = some v ∨ name ∈ c.directive.definedNames := by
  obtain ⟨unit, ran, time, -, -, hRecord, -⟩ := h.parts
  have hRecords := SymbolTable.recordsDefinitions_record (st.start c.directive).1 ran.store hNodup
  rw [hRecord] at hRecords
  have hMem := (st'.symbols.exists_get?_iff name).1 ⟨v, hv⟩
  rw [h.names_eq hNodup, List.mem_append] at hMem
  refine hMem.imp_left fun hOld => ?_
  obtain ⟨u, hu⟩ := (st.symbols.exists_get?_iff name).2 hOld
  obtain rfl := Option.some.inj ((hRecords.get?_of_old hu).symm.trans hv)
  exact hu

/-- A run of some directives and then of others is a run of all of them, with a state in the
middle. -/
theorem allRunToEnd_append_iff {later : List Nat} :
    AllRunToEnd fuel plan st (done ++ later) completed st' ↔
      ∃ before after middle, completed = before ++ after ∧
        AllRunToEnd fuel plan st done before middle ∧
        AllRunToEnd fuel plan middle later after st' := by
  induction done generalizing st completed with
  | nil =>
      constructor
      · exact fun h => ⟨[], completed, st, rfl, .nil, h⟩
      · rintro ⟨before, after, middle, rfl, hBefore, hAfter⟩
        cases hBefore
        exact hAfter
  | cons i done ih =>
      constructor
      · intro h
        cases h with
        | cons first others =>
            obtain ⟨before, after, middle, rfl, hBefore, hAfter⟩ := ih.1 others
            exact ⟨_ :: before, after, middle, rfl, .cons first hBefore, hAfter⟩
      · rintro ⟨before, after, middle, rfl, hBefore, hAfter⟩
        cases hBefore with
        | cons first others => exact .cons first (ih.2 ⟨_, after, middle, rfl, others, hAfter⟩)

/-- The state of a run after some directives that have run to their ends. -/
def After (fuel : Nat) (plan : Plan) (receipt : Bool) (done : List Nat) (st : RunState) : Prop :=
  ∃ completed, AllRunToEnd fuel plan { emitter := { receipt } } done completed st

namespace After

/-- A run is behind one more directive exactly if it was behind the others and that one ran to its
end. -/
theorem concat_iff : After fuel plan receipt (done ++ [i]) st' ↔
    ∃ st c, After fuel plan receipt done st ∧ RunsToEnd fuel plan i st c st' := by
  constructor
  · rintro ⟨completed, h⟩
    obtain ⟨before, after, middle, rfl, hBefore, hAfter⟩ := allRunToEnd_append_iff.1 h
    cases hAfter with
    | cons first others =>
        cases others
        exact ⟨middle, _, ⟨before, hBefore⟩, first⟩
  · rintro ⟨st, c, ⟨before, hBefore⟩, hLast⟩
    exact ⟨before ++ [c], allRunToEnd_append_iff.2 ⟨before, [c], st, rfl, hBefore,
      .cons hLast .nil⟩⟩

/-- Exactly the names of the directives are recorded, in order. -/
theorem names_eq (hSound : plan.Sound) (hOrder : plan.order = done ++ more)
    (h : After fuel plan receipt done st) :
    st.symbols.names = Schedule.namesOf plan.directives done := by
  induction done using List.reverseRecOn generalizing more st with
  | nil =>
      obtain ⟨_, h⟩ := h
      cases h
      rfl
  | append_singleton done i ih =>
      obtain ⟨middle, c, hDone, hLast⟩ := concat_iff.1 h
      obtain ⟨unit, ran, time, hItem, -⟩ := hLast.parts
      have hSplit : plan.order = done ++ i :: more := by rw [hOrder, List.append_assoc]; rfl
      have hNodup := hSound.nodup_namesOf hOrder
      rw [Schedule.namesOf_concat (Plan.directive_of_item? hItem), ← ih hSplit hDone] at hNodup ⊢
      exact hLast.names_eq hNodup

/-- The next directive defines names that are not recorded yet. -/
theorem nodup_next (hSound : plan.Sound) (hOrder : plan.order = done ++ i :: more)
    (h : After fuel plan receipt done st) (hStep : RunsToEnd fuel plan i st c st') :
    (st.symbols.names ++ c.directive.definedNames).Nodup := by
  obtain ⟨unit, ran, time, hItem, -⟩ := hStep.parts
  have hSplit : plan.order = done ++ [i] ++ more := by rw [hOrder, List.append_assoc]; rfl
  have hNodup := hSound.nodup_namesOf hSplit
  rwa [Schedule.namesOf_concat (Plan.directive_of_item? hItem),
    ← h.names_eq hSound hOrder] at hNodup

/-- Everything that a directive imports is recorded when it starts. -/
theorem imports_recorded (hSound : plan.Sound) (hOrder : plan.order = done ++ i :: more)
    (h : After fuel plan receipt done st) {d : Directive} (hd : plan.directives[i]? = some d) :
    ∀ name ∈ d.importedNames, name ∈ st.symbols.names := by
  rw [h.names_eq hSound hOrder]
  exact hSound.imports_before done i more d hOrder hd

end After

/-- A directive that runs to its end keeps what is guarded if the values it imports are harmless. -/
theorem RunsToEnd.kept {g : Guard} {old : SymbolTable} (hStep : RunsToEnd fuel plan i st c st')
    (h : st.Kept g old)
    (hImports : ∀ name ∈ c.directive.importedNames, ∀ v, old.get? name = some v → g.Harmless v)
    (hNodup : (st.symbols.names ++ c.directive.definedNames).Nodup) : st'.Kept g old := by
  obtain ⟨unit, ran, time, -, hRan, hRecord, hStore, -⟩ := hStep.parts
  exact h.run hImports hNodup hRan hRecord hStore rfl

/-- At every point of a run the recorded values have been made, and the cells of the store lead to
cells of it. -/
theorem After.made (hSound : plan.Sound) (hOrder : plan.order = done ++ more)
    (h : After fuel plan receipt done st) : st.Made := by
  have hKept : st.Kept (.nothing {} Store.closed_empty) {} := by
    induction done using List.reverseRecOn generalizing more st with
    | nil =>
        obtain ⟨_, h⟩ := h
        cases h
        exact ⟨Guard.keeps_nothing _, fun _ _ h => h, fun _ _ h => .inl h⟩
    | append_singleton done i ih =>
        obtain ⟨middle, c, hDone, hLast⟩ := concat_iff.1 h
        have hSplit : plan.order = done ++ i :: more := by rw [hOrder, List.append_assoc]; rfl
        refine hLast.kept (ih hSplit hDone)
          (fun _ _ v hv => ?_) (hDone.nodup_next hSound hSplit hLast)
        cases hv
  refine ⟨hKept.keeps.closedStore, fun name v hv => ?_⟩
  rcases hKept.added name v hv with hNone | hFree
  · cases hNone
  · exact hFree.hasValue

section

variable (hMade : st.Made) (hStep : RunsToEnd fuel plan i st c st')
  (hNodup : (st.symbols.names ++ c.directive.definedNames).Nodup)
  (hImports : st.ImportsData c.directive)

include hMade hStep hNodup hImports

/-- What was there before is as it was, and nothing that is recorded since leads there. -/
theorem RunsToEnd.kept_everything : st'.Kept (.everything st.store hMade.closed) st.symbols := by
  refine hStep.kept ⟨Guard.keeps_everything _, fun _ _ h => h, fun _ _ h => .inl h⟩ ?_ hNodup
  intro name hName v hv
  exact Guard.harmless_of_isData (hMade.hasValue name v hv) (hImports name hName v hv)

theorem RunsToEnd.agrees {x : StoreCell} (hx : st.store.HasCell x) : st.store.Agrees st'.store x :=
  (hStep.kept_everything hMade hNodup hImports).keeps.agrees x hx

/-- From what was there before no way leads to anything else. -/
theorem RunsToEnd.hasCell_of_reaches {x y : StoreCell} (hx : st.store.HasCell x)
    (hWay : st'.store.Reaches x y) : st.store.HasCell y := by
  induction hWay with
  | refl => exact hx
  | tail _ hLink ih =>
      rw [← (hStep.agrees hMade hNodup hImports ih).links_eq] at hLink
      exact hMade.closed _ _ hLink

/-- What was recorded before does not lead into what was made since. -/
theorem RunsToEnd.not_leadsInto {name : String} {u v : Value}
    (hu : st.symbols.get? name = some u)
    (hv : (Guard.everything st.store hMade.closed).FreeValue st'.store v) :
    ¬ st'.store.LeadsInto u v := by
  have hStays : ∀ {x y}, st.store.HasCell x → st'.store.Reaches x y → st.store.HasCell y :=
    fun hx hWay => hStep.hasCell_of_reaches hMade hNodup hImports hx hWay
  have hOld : ∀ e ∈ st'.store.reached u, st.store.HasCell e.cell := by
    refine Store.reached_induct (fun e he => ?_) fun e he x hx => ?_
    · exact hMade.hasValue name u hu _ (Value.cell?_of_container? he)
    · exact hStays he (.single (Store.cell_mem_links hx))
  have hKeeps := (hStep.kept_everything hMade hNodup hImports).keeps
  have hNew : ∀ e ∈ st'.store.reached v, ¬ st.store.HasCell e.cell := by
    intro e he
    have hFree : (Guard.everything st.store hMade.closed).Free st'.store e.cell := by
      refine Store.reached_induct (P := fun e => Guard.Free _ st'.store e.cell) ?_ ?_ e he
      · exact fun e he => hv _ (Value.cell?_of_container? he)
      · exact fun e hFree x hx => hKeeps.closed _ hFree.2 _ (Store.cell_mem_links hx)
    exact hFree.2
  rintro ⟨f, hHolds, e, he, hWay⟩
  have hFunction : st.store.HasCell (.function f) := by
    rcases hHolds with rfl | ⟨d, hd, hf⟩
    · exact hMade.hasValue name _ hu _ rfl
    · exact hStays (hOld d hd) (.single (Store.mem_links_of_mem_contents hf rfl))
  exact hNew e he (hStays hFunction hWay)

/-- Nothing that is recorded afterwards leads into what the directive defines, if there is no
function in any of it. -/
theorem RunsToEnd.harmless_ofValue (hMade' : st'.Made)
    (hExports : ∀ name ∈ c.directive.definedNames, ∀ u, st'.symbols.get? name = some u →
      st'.store.IsData u)
    {name : String} {v : Value} (hName : name ∈ c.directive.definedNames)
    (hv : st'.symbols.get? name = some v) (other : String) (u : Value)
    (hu : st'.symbols.get? other = some u) :
    (Guard.ofValue st'.store v hMade'.closed (hMade'.hasValue name v hv)).Harmless u := by
  have hKept := hStep.kept_everything hMade hNodup hImports
  have hHas := hMade'.hasValue other u hu
  by_cases hOther : other ∈ c.directive.definedNames
  · exact Guard.harmless_of_isData hHas (hExports other hOther u hu)
  · apply Guard.harmless_ofValue _ _ hHas
    have hw := (hStep.recorded_cases hNodup hu).resolve_right hOther
    refine hStep.not_leadsInto hMade hNodup hImports hw ((hKept.added name v hv).resolve_left ?_)
    intro hOld
    have hMem := (st.symbols.exists_get?_iff name).1 ⟨v, hOld⟩
    exact (List.nodup_append.1 hNodup).2.2 name hMem name hName rfl

end

/-- A whole run with the states that it goes through. -/
structure Course (fuel : Nat) (plan : Plan) (receipt : Bool) where
  state : Nat → RunState
  completed : List FinishedDirective
  start : state 0 = { emitter := { receipt } }
  step : ∀ k i, plan.order[k]? = some i → ∃ c, completed[k]? = some c ∧
    RunsToEnd fuel plan i (state k) c (state (k + 1))

namespace Course

/-- The state that a run comes to. -/
def last (r : Course fuel plan receipt) : RunState := r.state plan.order.length

/-- A run in which all directives of a plan end is a course from the first state to the last one. -/
theorem exists_of_allRunToEnd {final : RunState}
    (h : AllRunToEnd fuel plan { emitter := { receipt } } plan.order completed final) :
    ∃ r : Course fuel plan receipt, r.completed = completed ∧ r.last = final := by
  have hAll : ∀ {st order completed final}, AllRunToEnd fuel plan st order completed final →
      ∃ state : Nat → RunState, state 0 = st ∧ state order.length = final ∧
        ∀ k i, order[k]? = some i → ∃ c, completed[k]? = some c ∧
          RunsToEnd fuel plan i (state k) c (state (k + 1)) := by
    intro st order completed final h
    induction h with
    | @nil st => exact ⟨fun _ => st, rfl, rfl, fun k i hk => by simp at hk⟩
    | @cons st middle final i rest c more first others ih =>
        obtain ⟨state, rfl, hLast, hSteps⟩ := ih
        refine ⟨Nat.rec st fun k _ => state k, rfl, hLast, ?_⟩
        rintro (_ | k) j hk
        · obtain rfl := Option.some.inj hk
          exact ⟨c, rfl, first⟩
        · exact hSteps k j hk
  obtain ⟨state, hStart, hLast, hSteps⟩ := hAll h
  exact ⟨⟨state, completed, hStart, hSteps⟩, rfl, hLast⟩

variable (r : Course fuel plan receipt)

/-- The states of a run are those after the first directives. -/
theorem after {k : Nat} (hk : k ≤ plan.order.length) :
    After fuel plan receipt (plan.order.take k) (r.state k) := by
  induction k with
  | zero => exact ⟨[], r.start ▸ .nil⟩
  | succ k ih =>
      obtain ⟨c, -, hStep⟩ := r.step k plan.order[k] (List.getElem?_eq_getElem hk)
      rw [← List.take_append_getElem hk]
      exact After.concat_iff.2 ⟨r.state k, c, ih (Nat.le_of_succ_le hk), hStep⟩

/-- The order of a plan is what comes before a turn, the directive of that turn, and what comes
behind. -/
theorem split {k i : Nat} (hi : plan.order[k]? = some i) :
    plan.order = plan.order.take k ++ i :: plan.order.drop (k + 1) := by
  obtain ⟨hk, rfl⟩ := List.getElem?_eq_some_iff.1 hi
  rw [List.getElem_cons_drop, List.take_append_drop]

theorem made (hSound : plan.Sound) {k : Nat} (hk : k ≤ plan.order.length) : (r.state k).Made :=
  (r.after hk).made hSound (List.take_append_drop k plan.order).symm

/-- Recording a directive never repeats a name, as the plan was accepted and each directive has one
turn. -/
theorem nodup_next (hSound : plan.Sound) {k i : Nat} {c : FinishedDirective}
    (hi : plan.order[k]? = some i) (hStep : RunsToEnd fuel plan i (r.state k) c (r.state (k + 1))) :
    ((r.state k).symbols.names ++ c.directive.definedNames).Nodup := by
  have hk := (List.getElem?_eq_some_iff.1 hi).1
  exact (r.after (Nat.le_of_lt hk)).nodup_next hSound (split hi) hStep

/-- Later states of a run keep what is guarded, if nothing that was recorded leads there. -/
theorem kept (hSound : plan.Sound) {g : Guard} {old : SymbolTable}
    (hHarmless : ∀ name v, old.get? name = some v → g.Harmless v) {a b : Nat} (hab : a ≤ b)
    (hb : b ≤ plan.order.length) (h : (r.state a).Kept g old) : (r.state b).Kept g old := by
  induction hab with
  | refl => exact h
  | @step b _ ih =>
      have hi := List.getElem?_eq_getElem hb
      obtain ⟨c, -, hStep⟩ := r.step b _ hi
      exact hStep.kept (ih (Nat.le_of_succ_le hb)) (fun _ _ v hv => hHarmless _ v hv)
        (r.nodup_next hSound hi hStep)

/-- From the state on in which it is recorded a value stays what it is, without functions in it. -/
structure Settled (name : String) (v : Value) : Prop where
  recorded : r.last.symbols.get? name = some v
  alike : ∀ k ≤ plan.order.length, name ∈ (r.state k).symbols.names →
    (r.state k).symbols.get? name = some v ∧ (r.state k).store.IsData v ∧
      Alike (r.state k).store v r.last.store v

/-- What a directive defines is settled, if no functions are in it nor in what it imports. -/
theorem settled (hSound : plan.Sound) {k i : Nat} {c : FinishedDirective}
    (hi : plan.order[k]? = some i)
    (hStep : RunsToEnd fuel plan i (r.state k) c (r.state (k + 1)))
    (hImports : (r.state k).ImportsData c.directive)
    (hExports : ∀ name ∈ c.directive.definedNames, ∀ u,
      (r.state (k + 1)).symbols.get? name = some u → (r.state (k + 1)).store.IsData u)
    {name : String} {v : Value} (hName : name ∈ c.directive.definedNames)
    (hv : (r.state (k + 1)).symbols.get? name = some v) : r.Settled name v := by
  have hk : k < plan.order.length := (List.getElem?_eq_some_iff.1 hi).1
  have hMade := r.made hSound (Nat.le_of_lt hk)
  have hMade' := r.made hSound hk
  have hNodup := r.nodup_next hSound hi hStep
  have hHas := hMade'.hasValue name v hv
  let g := Guard.ofValue (r.state (k + 1)).store v hMade'.closed hHas
  have hHarmless : ∀ other u, (r.state (k + 1)).symbols.get? other = some u → g.Harmless u :=
    hStep.harmless_ofValue hMade hNodup hImports hMade' hExports hName hv
  have hStart : (r.state (k + 1)).Kept g (r.state (k + 1)).symbols :=
    ⟨Guard.keeps_ofValue _ _, fun _ _ h => h, fun _ _ h => .inl h⟩
  have hLater : ∀ b, k + 1 ≤ b → b ≤ plan.order.length →
      (r.state b).symbols.get? name = some v ∧
        Alike (r.state (k + 1)).store v (r.state b).store v := by
    intro b hkb hb
    have hKept := r.kept hSound hHarmless hkb hb hStart
    refine ⟨hKept.recorded name v hv, Store.alike_of_agrees hMade'.closed hHas ?_⟩
    exact Guard.unchanged_of_keeps _ _ hKept.keeps
  obtain ⟨hLast, hAlikeLast⟩ := hLater _ hk (Nat.le_refl _)
  refine ⟨hLast, fun b hb hRecorded => ?_⟩
  -- Up to then the name is not recorded.
  have hkb : k < b := by
    by_contra hNot
    have hFirst := (r.after hb).names_eq hSound (List.take_append_drop b plan.order).symm
    have hNext := (r.after (Nat.le_of_lt hk)).names_eq hSound
      (List.take_append_drop k plan.order).symm
    have hPrefix : plan.order.take b <+: plan.order.take k :=
      List.take_prefix_take_left (Nat.not_lt.1 hNot)
    have hEarly : name ∈ (r.state k).symbols.names := by
      rw [hFirst, Schedule.mem_namesOf_iff] at hRecorded
      rw [hNext, Schedule.mem_namesOf_iff]
      obtain ⟨j, hj, hDefined⟩ := hRecorded
      exact ⟨j, hPrefix.subset hj, hDefined⟩
    exact (List.nodup_append.1 hNodup).2.2 name hEarly name hName rfl
  obtain ⟨hGet, hAlike⟩ := hLater b hkb hb
  exact ⟨hGet, hAlike.isData hMade'.closed hHas (hExports name hName v hv),
    hAlike.symm.trans hAlikeLast⟩

end Course

end Run

end Metagen
