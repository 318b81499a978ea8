import Metagen.Proofs.Directive.Schedule
import Metagen.Run.Plan

/-! What holds of a plan: no name is defined twice, every directive has a script and a turn, and
whatever a directive imports is defined by directives whose turn comes before. -/

namespace Metagen

namespace Schedule

theorem namesOf_append (ds : List Directive) (first second : List Nat) :
    namesOf ds (first ++ second) = namesOf ds first ++ namesOf ds second := List.flatMap_append

/-- All numbers together define what all directives define. -/
theorem namesOf_range (ds : List Directive) :
    namesOf ds (List.range ds.length) = ds.flatMap (·.definedNames) := by
  rw [List.range_eq_range', ← List.zipIdx_map_snd 0 ds, namesOf, List.flatMap_map]
  conv_rhs => rw [← List.zipIdx_map_fst 0 ds, List.flatMap_map]
  refine List.flatMap_congr ?_
  rintro ⟨d, i⟩ hEntry
  rw [List.mem_zipIdx_iff_getElem?.1 hEntry]
  rfl

end Schedule

/-- What comes before a number in a list without repetitions is in front of it. -/
theorem mem_of_idxOf_lt {done more : List Nat} {i p : Nat} (hNodup : (done ++ i :: more).Nodup)
    (hLess : (done ++ i :: more).idxOf p < (done ++ i :: more).idxOf i) : p ∈ done := by
  have hi : i ∉ done := fun hi => (List.nodup_append.1 hNodup).2.2 i hi i List.mem_cons_self rfl
  rw [List.idxOf_append_of_notMem hi, List.idxOf_cons_self] at hLess
  by_contra hp
  rw [List.idxOf_append_of_notMem hp] at hLess
  omega

namespace Plan

theorem directive_of_item? {p : Plan} {i : Nat} {d : Directive} {unit : CompiledUnit}
    (h : p.item? i = some (d, unit)) : p.directives[i]? = some d := by
  obtain ⟨e, he, hRest⟩ := Option.bind_eq_some_iff.1 h
  obtain ⟨made, -, hRest⟩ := Option.bind_eq_some_iff.1 hRest
  cases hRest
  exact he

/-- What is settled before any directive runs. -/
structure Sound (p : Plan) : Prop where
  length_units : p.units.length = p.directives.length
  order_perm : p.order.Perm (List.range p.directives.length)
  imports_nodup : ∀ d ∈ p.directives, d.importedNames.Nodup
  definitions_nodup : (p.directives.flatMap (·.definedNames)).Nodup
  imports_before : ∀ done i more d, p.order = done ++ i :: more → p.directives[i]? = some d →
    ∀ name ∈ d.importedNames, name ∈ Schedule.namesOf p.directives done

/-- Every number in the order of a sound plan has a directive with a script. -/
theorem Sound.exists_item {p : Plan} (h : p.Sound) {i : Nat} (hi : i ∈ p.order) :
    ∃ d unit, p.item? i = some (d, unit) ∧ p.directives[i]? = some d := by
  have hDirective : i < p.directives.length := List.mem_range.1 (h.order_perm.mem_iff.1 hi)
  have hUnit : i < p.units.length := h.length_units ▸ hDirective
  refine ⟨p.directives[i], p.units[i], ?_, List.getElem?_eq_getElem hDirective⟩
  rw [item?, List.getElem?_eq_getElem hDirective, List.getElem?_eq_getElem hUnit]
  rfl

/-- Directives in turn define distinct names. -/
theorem Sound.nodup_namesOf {p : Plan} (h : p.Sound) {done more : List Nat}
    (hOrder : p.order = done ++ more) : (Schedule.namesOf p.directives done).Nodup := by
  have hAll : (Schedule.namesOf p.directives p.order).Nodup := by
    have hPerm : (Schedule.namesOf p.directives p.order).Perm
        (Schedule.namesOf p.directives (List.range p.directives.length)) :=
      h.order_perm.flatMap_right _
    rw [hPerm.nodup_iff, Schedule.namesOf_range]
    exact h.definitions_nodup
  rw [hOrder, Schedule.namesOf_append] at hAll
  exact (List.nodup_append.1 hAll).1

/-- All scripts are read, in the order of the directives. -/
theorem compile_iff (ds : List Directive) (units : List CompiledUnit) :
    ds.mapM (·.compile) = .ok units ↔
      List.Forall₂ (fun d unit => d.compile = .ok unit) ds units := by
  induction ds generalizing units with
  | nil =>
      rw [List.forall₂_nil_left_iff]
      exact ⟨fun h => (Except.ok.inj h).symm, fun h => h ▸ rfl⟩
  | cons d ds ih =>
      rw [List.mapM_cons, List.forall₂_cons_left_iff]
      cases hUnit : d.compile with
      | error diagnostic =>
          constructor
          · intro h
            cases h
          · rintro ⟨unit, more, h, -⟩
            cases h
      | ok unit =>
          cases hMore : ds.mapM (·.compile) with
          | error diagnostic =>
              constructor
              · intro h
                cases h
              · rintro ⟨_, more, -, hRest, -⟩
                rw [← ih, hMore] at hRest
                cases hRest
          | ok more =>
              have hRest := ih more
              constructor
              · intro h
                exact ⟨unit, more, rfl, hRest.1 hMore, (Except.ok.inj h).symm⟩
              · rintro ⟨_, others, h, hOthers, rfl⟩
                rw [← ih, hMore] at hOthers
                cases h
                cases hOthers
                rfl

/-- The parts of a plan come from resolving, scheduling and compiling. -/
theorem parts_of_ofDirectives {ds : List Directive} {p : Plan} (h : ofDirectives ds = .ok p) :
    resolve ds = .ok (p.directives, p.graph) ∧ schedule p.directives = .ok p.order ∧
      p.directives.mapM (·.compile) = .ok p.units := by
  cases hResolve : resolve ds with
  | error diagnostic =>
      simp only [ofDirectives, hResolve] at h
      cases h
  | ok result =>
      obtain ⟨after, g⟩ := result
      cases hSchedule : schedule after with
      | error diagnostic =>
          simp only [ofDirectives, hResolve, bind, Except.bind, hSchedule] at h
          cases h
      | ok order =>
          cases hUnits : after.mapM (·.compile) with
          | error diagnostic =>
              simp only [ofDirectives, hResolve, bind, Except.bind, hSchedule, hUnits] at h
              cases h
          | ok units =>
              simp only [ofDirectives, hResolve, bind, Except.bind, hSchedule, hUnits] at h
              obtain rfl := Except.ok.inj h
              exact ⟨rfl, hSchedule, hUnits⟩

/-- A plan for sources is the plan for the directives in them. -/
theorem scanned_of_ofSources {dir : String} {sources : List SourceUnit} {p : Plan}
    {warnings rest : Array String} (h : ofSources dir sources warnings = .ok p rest) :
    ∃ ds after, scan dir sources warnings = .ok ds after ∧ ofDirectives ds = .ok p := by
  obtain ⟨ds, after, hScan, hPlan⟩ := (bind_ok_iff _ _ _ _ _).1 h
  cases hMade : ofDirectives ds with
  | error diagnostic =>
      rw [hMade] at hPlan
      exact ((throw_ok_iff _ _ _ _).1 hPlan).elim
  | ok made =>
      rw [hMade] at hPlan
      obtain ⟨rfl, -⟩ := (pure_ok_iff _ _ _ _).1 hPlan
      exact ⟨ds, after, hScan, hMade⟩

/-- Plans for sources are sound. -/
theorem sound_of_ofSources {dir : String} {sources : List SourceUnit} {p : Plan}
    {warnings rest : Array String} (h : ofSources dir sources warnings = .ok p rest) : p.Sound := by
  obtain ⟨ds, after, hScan, hMade⟩ := scanned_of_ofSources h
  obtain ⟨hResolve, hSchedule, hUnits⟩ := parts_of_ofDirectives hMade
  obtain ⟨hConsistent, hResolved⟩ := resolved_of_resolve hResolve
  obtain ⟨hOrder, -⟩ := hResolved.isLeast_of_schedule hSchedule
  refine ⟨((compile_iff _ _).1 hUnits).length_eq.symm, hOrder.perm, ?_, ?_, ?_⟩
  · intro e he
    obtain ⟨i, he⟩ := List.mem_iff_getElem?.1 he
    have hi : i < ds.length := hResolved.length_eq ▸ (List.getElem?_eq_some_iff.1 he).1
    have hd : ds[i]? = some ds[i] := List.getElem?_eq_getElem hi
    have hDeclared := scan_declared hScan ds[i] (List.getElem_mem hi)
    exact (hDeclared.completedFrom (hResolved.completes i _ _ hd he)).importedNames_nodup
  · exact hResolved.definitions_nodup hConsistent
  · intro done i more d hSplit hd name hName
    obtain ⟨p, ⟨o, ho, hDefined⟩, -⟩ := hResolved.one_provider i d name hd hName
    have hLess := hOrder.provider_first p i
      ((hResolved.mem_edges_iff p i).2 ⟨o, d, name, ho, hd, hDefined, hName⟩)
    have hNodup := hOrder.perm.nodup_iff.2 List.nodup_range
    rw [hSplit] at hLess hNodup
    exact (Schedule.mem_namesOf_iff _ _ _).2
      ⟨p, mem_of_idxOf_lt hNodup hLess, o, ho, hDefined⟩

/-- The sources have a plan that passes the check. -/
def passes (sources : List SourceUnit) (check : Plan → Bool) : Bool :=
  match ofSources "out" sources #[] with
  | .ok p _ => check p
  | .error _ _ => false

theorem exists_of_passes {sources : List SourceUnit} {check : Plan → Bool}
    (h : passes sources check = true) :
    ∃ p rest, ofSources "out" sources #[] = .ok p rest ∧ check p = true := by
  unfold passes at h
  split at h
  next p rest hPlan => exact ⟨p, rest, hPlan, h⟩
  next => cases h

end Plan

end Metagen
