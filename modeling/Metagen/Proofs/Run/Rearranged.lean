import Metagen.Proofs.Run.Plan
import Metagen.Proofs.Tandem
import Mathlib.Data.List.Flatten

/-! Sources in another order. Scanning finds the same directives in them, in another order, and
warnings that were given before do not matter. If there is a plan for the sources there is one for
the sources in the other order, with the same directives and scripts; only what directives import
may be listed in another order. -/

namespace Metagen

open Text

namespace Scan

variable {α β : Type}

/-- The step does the same, whatever warnings were given before. -/
abbrev IgnoresWarnings (step : Scan α) : Prop := Follows (.plain fun _ _ => True) Eq step step

namespace IgnoresWarnings

theorem warnUnused (file : SourceFile) (pending : Option Pending) :
    IgnoresWarnings (warnUnused file pending) := by
  unfold Scan.warnUnused
  cases pending with
  | none => exact .pure rfl
  | some p => exact .ite (.modify fun _ _ => id) (.pure rfl)

theorem addDeclarations (file : SourceFile) (line : Nat) (remainder : String) (h : OpenHeader) :
    IgnoresWarnings (addDeclarations file line remainder h) := by
  unfold Scan.addDeclarations
  cases Header.parse remainder with
  | ok decls => exact .pure rfl
  | error fault => exact .throw _

theorem checkHeader (file : SourceFile) (h : OpenHeader) :
    IgnoresWarnings (checkHeader file h) := by
  unfold Scan.checkHeader
  cases Header.repeated? h.decls with
  | none => exact .pure rfl
  | some found => exact .throw _

/-- What a header line makes of an open header does not depend on the warnings before it. -/
theorem headerStep (file : SourceFile) (mode : ScanMode) (line : Nat) (remainder : String)
    (h : OpenHeader) : IgnoresWarnings (headerStep file mode line remainder h) := by
  unfold Scan.headerStep
  refine (addDeclarations file line _ h).bindSame fun next => ?_
  exact .ite ((checkHeader file next).bindSame fun _ => .pure rfl) (.pure rfl)

/-- What a line makes of a position does not depend on the warnings before it. -/
theorem step (dir : String) (file : SourceFile) (mode : ScanMode) (line : Nat) (text : String)
    (p : Position) : IgnoresWarnings (step dir file mode line text p) := by
  cases p with
  | outside pending =>
      unfold Scan.step
      cases Header.includeTarget? text with
      | some target => exact .pure rfl
      | none =>
          dsimp only
          cases Header.first? mode text with
          | some remainder => exact headerStep _ _ _ _ _
          | none => exact (warnUnused file pending).bindSame fun _ => .pure rfl
  | header h =>
      unfold Scan.step
      cases Header.later? mode text with
      | some remainder => exact headerStep _ _ _ _ _
      | none => exact (checkHeader file h).bindSame fun _ => .pure rfl
  | body b => exact .pure rfl

/-- What the end of the lines makes of a position does not depend on the warnings before it. -/
theorem finish (file : SourceFile) (mode : ScanMode) (line : Nat) (p : Position) :
    IgnoresWarnings (finish file mode line p) := by
  cases p with
  | outside pending => exact .pure rfl
  | header h =>
      refine (checkHeader file h).bindSame fun _ => ?_
      cases mode with
      | host => exact .throw _
      | script => exact .pure rfl
  | body b =>
      cases mode with
      | host => exact .throw _
      | script => exact .pure rfl

/-- By induction over the lines: which directives are found does not depend on the warnings before
them. -/
theorem directivesFrom (dir : String) (file : SourceFile) (mode : ScanMode) (line : Nat)
    (lines : List String) (p : Position) :
    IgnoresWarnings (directivesFrom dir file mode line lines p) := by
  induction lines generalizing line p with
  | nil => exact finish file mode line p
  | cons text rest ih =>
      refine (step dir file mode line text p).bindSame fun result => ?_
      exact (ih (line + 1) result.2).bindSame fun _ => .pure rfl

theorem directives (dir : String) (source : SourceUnit) : IgnoresWarnings (directives dir source) :=
  directivesFrom dir _ _ 1 _ _

end IgnoresWarnings

/-- These directives are found in the source, whatever warnings were given before. -/
def Found (dir : String) (source : SourceUnit) (ds : List Directive) : Prop :=
  ∀ warnings, ∃ rest, directives dir source warnings = .ok ds rest

/-- Scanning several sources finds what scanning each of them finds. -/
theorem mapM_directives_iff (dir : String) (sources : List SourceUnit)
    (found : List (List Directive)) (warnings : Array String) :
    (∃ rest, sources.mapM (directives dir) warnings = .ok found rest) ↔
      List.Forall₂ (Found dir) sources found := by
  induction sources generalizing found warnings with
  | nil =>
      simp only [List.mapM_nil, pure_ok_iff, List.forall₂_nil_left_iff, exists_and_left,
        exists_eq', and_true, @eq_comm _ found]
  | cons source others ih =>
      simp only [List.mapM_cons, bind_ok_iff, pure_ok_iff]
      constructor
      · rintro ⟨_, ds, middle, hFirst, more, rest, hOthers, rfl, -⟩
        refine .cons (fun before => ?_) ((ih more middle).1 ⟨rest, hOthers⟩)
        obtain ⟨_, after, hEnds, -, rfl⟩ :=
          IgnoresWarnings.directives dir source warnings before trivial ds middle hFirst
        exact ⟨after, hEnds.ends⟩
      · rintro (_ | ⟨hFound, hOthers⟩)
        obtain ⟨middle, hFirst⟩ := hFound warnings
        obtain ⟨rest, hRest⟩ := (ih _ middle).2 hOthers
        exact ⟨rest, _, middle, hFirst, _, rest, hRest, rfl, rfl⟩

end Scan

/-- The same directives are found, in another order. -/
theorem scan_of_perm {dir : String} {sources sources' : List SourceUnit}
    (hSources : sources.Perm sources') {warnings rest : Array String} {ds : List Directive}
    (h : scan dir sources warnings = .ok ds rest) (warnings' : Array String) :
    ∃ ds' rest', scan dir sources' warnings' = .ok ds' rest' ∧ ds.Perm ds' := by
  obtain ⟨found, _, hFound, hEnd⟩ := (bind_ok_iff _ _ _ _ _).1 h
  obtain ⟨rfl, -⟩ := (pure_ok_iff _ _ _ _).1 hEnd
  have hEach := (Scan.mapM_directives_iff dir sources found warnings).1 ⟨_, hFound⟩
  obtain ⟨found', hEach', hPerm⟩ := List.perm_comp_forall₂ hSources.symm hEach
  obtain ⟨rest', hFound'⟩ := (Scan.mapM_directives_iff dir sources' found' warnings').2 hEach'
  refine ⟨found'.flatten, rest', ?_, hPerm.symm.flatten⟩
  exact (bind_ok_iff _ _ _ _ _).2 ⟨found', rest', hFound', rfl⟩

variable {ds ds' : List Directive}

/-- Being without conflicts does not depend on the order of the directives: each of the four
conditions is about all of them. -/
theorem Consistent.of_perm (h : Consistent ds) (hPerm : ds.Perm ds') : Consistent ds' where
  outputs := by
    rw [not_sharesOutput_iff, ← (hPerm.filterMap _).nodup_iff, ← not_sharesOutput_iff]
    exact h.outputs
  names := by
    rw [not_sharesName_iff, ← (hPerm.flatMap_right _).nodup_iff, ← not_sharesName_iff]
    exact h.names
  imports := by
    rintro ⟨d, hd, name, hName, hNone⟩
    exact h.imports ⟨d, hPerm.mem_iff.2 hd, name, hName, fun e he => hNone e (hPerm.mem_iff.1 he)⟩
  own := by
    rintro ⟨d, hd, name, hName, hOwn⟩
    exact h.own ⟨d, hPerm.mem_iff.2 hd, name, hName, hOwn⟩

/-- Directives that differ in nothing but the order of what they import. -/
structure Directive.Same (d e : Directive) : Prop where
  file : e.file = d.file
  headerLine : e.headerLine = d.headerLine
  include? : e.include? = d.include?
  definitions : e.definitions = d.definitions
  imports : d.importedNames.Perm e.importedNames
  body : e.body = d.body
  bodyLine : e.bodyLine = d.bodyLine

namespace Directive.Same

variable {d e : Directive}

theorem definedNames (h : d.Same e) : e.definedNames = d.definedNames := by
  rw [Directive.definedNames, Directive.definedNames, h.definitions]

theorem label (h : d.Same e) : e.label = d.label := by
  rw [Directive.label, Directive.label, h.file, h.headerLine]

/-- They have the same script. -/
theorem compile (h : d.Same e) : e.compile = d.compile := by
  have hPreamble : e.preamble = d.preamble := by
    rw [Directive.preamble, Directive.preamble, h.label, h.definedNames]
  have hText : e.scriptText = d.scriptText := by
    rw [Directive.scriptText, Directive.scriptText, hPreamble, h.body]
  have hMap : e.unitMap = d.unitMap := by
    rw [Directive.unitMap, Directive.unitMap, h.headerLine, h.bodyLine, hPreamble]
  have hPlace : e.place = d.place := by
    funext line label
    rw [Directive.place, Directive.place, h.file]
  have hProblem : e.scriptDiagnostic = d.scriptDiagnostic := by
    funext problem
    rw [Directive.scriptDiagnostic, Directive.scriptDiagnostic, hPlace, hMap]
  rw [Directive.compile, Directive.compile, h.label, hText, hMap, hProblem,
    Directive.unreadable, Directive.unreadable, hPlace, h.headerLine]

end Directive.Same

/-- Among more or fewer others, or in another order, a directive asks for the same imports. -/
theorem GainsImports.same {d e e' : Directive} (h : GainsImports ds d e)
    (h' : GainsImports ds' d e')
    (hPerm : ds.Perm ds') : e.Same e' := by
  obtain ⟨added, rfl, hNodup, hAdded⟩ := h
  obtain ⟨added', rfl, hNodup', hAdded'⟩ := h'
  refine ⟨rfl, rfl, rfl, ?_, ?_, rfl, rfl⟩
  · rw [Directive.definitions_withImplicit, Directive.definitions_withImplicit]
  · rw [Directive.importedNames_withImplicit, Directive.importedNames_withImplicit]
    refine .append_left _ ((List.perm_ext_iff_of_nodup hNodup hNodup').2 fun name => ?_)
    simp only [hAdded, hAdded', hPerm.mem_iff]

/-- A directive of one order has the same one in the other, with the same imports added to it. -/
theorem exists_same (hPerm : ds.Perm ds') {e : Directive}
    (he : e ∈ Resolution.withImplicitImports ds) :
    ∃ e' ∈ Resolution.withImplicitImports ds', e.Same e' := by
  obtain ⟨d, hd, rfl⟩ := List.mem_map.1 he
  exact ⟨_, List.mem_map_of_mem (hPerm.mem_iff.1 hd),
    (Resolution.gainsImports ds d).same (Resolution.gainsImports ds' d) hPerm⟩

theorem Directive.Same.symm {d e : Directive} (h : d.Same e) : e.Same d :=
  ⟨h.file.symm, h.headerLine.symm, h.include?.symm, h.definitions.symm, h.imports.symm,
    h.body.symm, h.bodyLine.symm⟩

/-- Directives without conflicts are resolved to themselves with the imports that no header
names. -/
theorem resolve_of_consistent (h : Consistent ds) : resolve ds =
    .ok (Resolution.withImplicitImports ds,
      Resolution.graph (Resolution.withImplicitImports ds)) := by
  rw [resolve_eq_ok_iff, Resolution.inPlace_eq, (Resolution.conflict?_eq_none_iff ds).2 h]

/-- Going round a cycle, each directive feeds the next one, and so do the same directives
elsewhere. -/
theorem Resolved.hasCycle_of_same {after after' : List Directive} {g g' : DependencyGraph}
    (h : Resolved ds after g) (h' : Resolved ds' after' g')
    (hSame : ∀ e ∈ after, ∃ e' ∈ after', e.Same e') (hCycle : g.HasCycle) : g'.HasCycle := by
  have hNumbers : ∀ i, i < after.length → ∃ j : Nat, ∃ e e' : Directive, after[i]? = some e ∧
      after'[j]? = some e' ∧ e.Same e' := by
    intro i hi
    obtain ⟨e', he', hPair⟩ := hSame after[i] (List.getElem_mem hi)
    obtain ⟨j, hj⟩ := List.mem_iff_getElem?.1 he'
    exact ⟨j, _, e', List.getElem?_eq_getElem hi, hj, hPair⟩
  choose! number hNumber using hNumbers
  have hFeeds : ∀ p c, g.Feeds p c → g'.Feeds (number p) (number c) := by
    intro p c hFeeds
    obtain ⟨hp, hc⟩ := h.feeds_bound hFeeds
    obtain ⟨d, e, name, hd, he, hDefined, hImported⟩ := (h.mem_edges_iff p c).1 hFeeds
    obtain ⟨o, d', ho, hd', hSameD⟩ := hNumber p hp
    obtain ⟨o', e', ho', he', hSameE⟩ := hNumber c hc
    obtain rfl := Option.some.inj (ho.symm.trans hd)
    obtain rfl := Option.some.inj (ho'.symm.trans he)
    exact (h'.mem_edges_iff _ _).2 ⟨d', e', name, hd', he', hSameD.definedNames.symm ▸ hDefined,
      hSameE.imports.mem_iff.1 hImported⟩
  obtain ⟨i, hRound⟩ := hCycle
  exact ⟨number i, hRound.lift number hFeeds⟩

namespace Plan

variable {dir : String} {sources sources' : List SourceUnit} {warnings rest : Array String}
  {p : Plan}

/-- Each directive of the first plan is one of the second plan, with the same script. -/
def Within (p p' : Plan) : Prop :=
  ∀ i d unit, p.item? i = some (d, unit) → ∃ j d', p'.item? j = some (d', unit) ∧ d.Same d'

/-- A plan has a directive with its script under a number exactly if it has both under that
number. -/
theorem item?_eq_some_iff {i : Nat} {d : Directive} {unit : CompiledUnit} :
    p.item? i = some (d, unit) ↔ p.directives[i]? = some d ∧ p.units[i]? = some unit := by
  simp only [item?, bind, Option.bind_eq_some_iff, pure, Option.some.injEq, Prod.mk.injEq]
  constructor
  · rintro ⟨_, hd, _, hUnit, rfl, rfl⟩
    exact ⟨hd, hUnit⟩
  · rintro ⟨hd, hUnit⟩
    exact ⟨d, hd, unit, hUnit, rfl, rfl⟩

/-- Directives that compile one by one have scripts in the same order. -/
theorem exists_units (h : ∀ d ∈ ds, ∃ unit, d.compile = .ok unit) :
    ∃ units, List.Forall₂ (fun d unit => Directive.compile d = .ok unit) ds units := by
  induction ds with
  | nil => exact ⟨[], .nil⟩
  | cons d ds ih =>
      obtain ⟨unit, hUnit⟩ := h d List.mem_cons_self
      obtain ⟨units, hUnits⟩ := ih fun e he => h e (List.mem_cons_of_mem _ he)
      exact ⟨unit :: units, .cons hUnit hUnits⟩

/-- If each directive of one plan is the same as one of the other, then so are their scripts. -/
theorem within_of_same {p' : Plan}
    (h : List.Forall₂ (fun d unit => Directive.compile d = .ok unit) p.directives p.units)
    (h' : List.Forall₂ (fun d unit => Directive.compile d = .ok unit) p'.directives p'.units)
    (hSame : ∀ d ∈ p.directives, ∃ d' ∈ p'.directives, d.Same d') : p.Within p' := by
  intro i d unit hItem
  obtain ⟨hd, hUnit⟩ := item?_eq_some_iff.1 hItem
  obtain ⟨d', hd', hPair⟩ := hSame d (List.mem_of_getElem? hd)
  obtain ⟨j, hj⟩ := List.mem_iff_getElem?.1 hd'
  obtain ⟨hi, rfl⟩ := List.getElem?_eq_some_iff.1 hd
  obtain ⟨hi', rfl⟩ := List.getElem?_eq_some_iff.1 hUnit
  obtain ⟨hj', rfl⟩ := List.getElem?_eq_some_iff.1 hj
  have hj'' : j < p'.units.length := h'.length_eq ▸ hj'
  have hCompiled : p'.directives[j].compile = .ok p'.units[j] := h'.get hj' hj''
  have hFirst : p.directives[i].compile = .ok p.units[i] := h.get hi hi'
  rw [hPair.compile, hFirst] at hCompiled
  refine ⟨j, _, item?_eq_some_iff.2 ⟨hj, ?_⟩, hPair⟩
  rw [List.getElem?_eq_getElem hj'', Except.ok.inj hCompiled]

/-- If there is a plan for some sources, there is one for them in another order, with the same
directives and scripts. -/
theorem exists_of_perm (hSources : sources.Perm sources')
    (h : ofSources dir sources warnings = .ok p rest) (warnings' : Array String) :
    ∃ p' rest', ofSources dir sources' warnings' = .ok p' rest' ∧ p.Within p' ∧ p'.Within p := by
  obtain ⟨ds, _, hScan, hMade⟩ := scanned_of_ofSources h
  obtain ⟨hResolve, hSchedule, hUnits⟩ := parts_of_ofDirectives hMade
  obtain ⟨hConsistent, hResolved⟩ := resolved_of_resolve hResolve
  obtain ⟨ds', rest', hScan', hPerm⟩ := scan_of_perm hSources hScan warnings'
  have hConsistent' := hConsistent.of_perm hPerm
  have hResolve' := resolve_of_consistent hConsistent'
  obtain ⟨-, hResolved'⟩ := resolved_of_resolve hResolve'
  have hDirectives : p.directives = Resolution.withImplicitImports ds := by
    rw [resolve_of_consistent hConsistent] at hResolve
    exact (congrArg Prod.fst (Except.ok.inj hResolve)).symm
  have hSame : ∀ d ∈ p.directives, ∃ d' ∈ Resolution.withImplicitImports ds', d.Same d' := by
    rw [hDirectives]
    exact fun d hd => exists_same hPerm hd
  have hSame' : ∀ d' ∈ Resolution.withImplicitImports ds', ∃ d ∈ p.directives, d'.Same d := by
    rw [hDirectives]
    exact fun d hd => exists_same hPerm.symm hd
  -- No cycle before, and so none now.
  have hNone : ¬ p.graph.HasCycle := hResolved.exists_schedule_iff.1 ⟨_, hSchedule⟩
  obtain ⟨order, hSchedule'⟩ := hResolved'.exists_schedule_iff.2 fun hCycle =>
    hNone (hResolved'.hasCycle_of_same hResolved hSame' hCycle)
  have hCompiled := (compile_iff _ _).1 hUnits
  obtain ⟨units, hCompiled'⟩ := exists_units fun d' hd' => by
    obtain ⟨d, hd, hPair⟩ := hSame' d' hd'
    obtain ⟨i, hi, rfl⟩ := List.mem_iff_getElem.1 hd
    exact ⟨_, hPair.compile.symm.trans (hCompiled.get hi (hCompiled.length_eq ▸ hi))⟩
  have hUnits' := (compile_iff _ _).2 hCompiled'
  let p' : Plan :=
    { directives := Resolution.withImplicitImports ds'
      graph := Resolution.graph (Resolution.withImplicitImports ds')
      order
      units }
  have hMade' : ofDirectives ds' = .ok p' := by
    simp only [ofDirectives, hResolve', bind, Except.bind, hSchedule', hUnits']
    rfl
  refine ⟨p', rest', ?_, within_of_same hCompiled hCompiled' hSame,
    within_of_same hCompiled' hCompiled hSame'⟩
  refine (bind_ok_iff _ _ _ _ _).2 ⟨ds', rest', hScan', ?_⟩
  rw [hMade']
  rfl

end Plan

end Metagen
