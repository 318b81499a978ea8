import Metagen.Directive.Resolution
import Metagen.Proofs.Directive.Declarations

/-! Conflicts between directives, said without the groups that the checks look through, and which of
several conflicts is told. -/

namespace Metagen

/-- Two directives generate one file: their paths have the same parts. -/
def SharesOutput (ds : List Directive) : Prop :=
  ∃ (i j : Nat) (d e : Directive) (a b : Include), i < j ∧ ds[i]? = some d ∧ ds[j]? = some e ∧
    d.include? = some a ∧ e.include? = some b ∧ Path.parts a.path = Path.parts b.path

/-- Some name is defined by two declarations. -/
def SharesName (ds : List Directive) : Prop :=
  ∃ name, 1 < (ds.flatMap (·.definedNames)).count name

/-- Some import is defined nowhere. -/
def ImportsUndefined (ds : List Directive) : Prop :=
  ∃ d ∈ ds, ∃ name ∈ d.importedNames, ∀ e ∈ ds, name ∉ e.definedNames

/-- Some directive imports what it defines. -/
def ImportsItself (ds : List Directive) : Prop :=
  ∃ d ∈ ds, ∃ name ∈ d.importedNames, name ∈ d.definedNames

/-- The first conflict, by the order in which conflicts count, has this code. -/
inductive FirstConflict (ds : List Directive) : ErrorCode → Prop where
  | output (shared : SharesOutput ds) : FirstConflict ds .duplicateOutput
  | name (outputs : ¬ SharesOutput ds) (shared : SharesName ds) :
      FirstConflict ds .duplicateExport
  | undefined (outputs : ¬ SharesOutput ds) (names : ¬ SharesName ds)
      (missing : ImportsUndefined ds) : FirstConflict ds .unresolvedImport
  | itself (outputs : ¬ SharesOutput ds) (names : ¬ SharesName ds)
      (imports : ¬ ImportsUndefined ds) (own : ImportsItself ds) : FirstConflict ds .selfImport

/-- Directives without any conflict. -/
structure Consistent (ds : List Directive) : Prop where
  outputs : ¬ SharesOutput ds
  names : ¬ SharesName ds
  imports : ¬ ImportsUndefined ds
  own : ¬ ImportsItself ds

/-- Two directives generate one file if and only if the paths, split into their parts, are not all
different. -/
theorem not_sharesOutput_iff (ds : List Directive) :
    ¬ SharesOutput ds ↔
      (ds.filterMap fun d => d.include?.map fun a => Path.parts a.path).Nodup := by
  rw [List.Nodup, List.pairwise_filterMap, List.pairwise_iff_getElem]
  constructor
  · intro hNone i j hi hj hij parts hParts others hOthers hEq
    obtain ⟨a, ha, rfl⟩ := Option.map_eq_some_iff.1 hParts
    obtain ⟨b, hb, rfl⟩ := Option.map_eq_some_iff.1 hOthers
    exact hNone ⟨i, j, ds[i], ds[j], a, b, hij, List.getElem?_eq_getElem hi,
      List.getElem?_eq_getElem hj, ha, hb, hEq⟩
  · rintro hPairs ⟨i, j, d, e, a, b, hij, hi, hj, ha, hb, hEq⟩
    obtain ⟨hLeft, rfl⟩ := List.getElem?_eq_some_iff.1 hi
    obtain ⟨hRight, rfl⟩ := List.getElem?_eq_some_iff.1 hj
    exact hPairs i j hLeft hRight hij _ (by rw [ha]; rfl) _ (by rw [hb]; rfl) hEq

/-- No name is shared exactly if all definitions of all directives, put behind one another, are
different. -/
theorem not_sharesName_iff (ds : List Directive) :
    ¬ SharesName ds ↔ (ds.flatMap (·.definedNames)).Nodup := by
  rw [List.nodup_iff_count_le_one, SharesName, not_exists]
  simp only [Nat.not_lt]

namespace Resolution

/-- The check for shared outputs finds nothing exactly if no two directives name the same file,
however the paths are spelled. -/
theorem sharedOutput?_eq_none_iff (ds : List Directive) :
    sharedOutput? ds = none ↔ ¬ SharesOutput ds := by
  let targets := ds.filterMap fun d => d.include?.map fun target =>
    (Path.parts target.path, target.path, d.place target.line none)
  have hKeys : targets.map (·.1) =
      ds.filterMap fun d => d.include?.map fun a => Path.parts a.path := by
    simp [targets, List.map_filterMap, Function.comp_def]
  rw [not_sharesOutput_iff, ← hKeys, nodup_keys_iff, sharedOutput?, List.findSome?_eq_none_iff]
  refine forall_congr' fun group => imp_congr_right fun _ => ?_
  match group with
  | (_, []) => simp
  | (_, [_]) => simp
  | (_, _ :: _ :: _) => simp

theorem code_of_sharedOutput? {ds : List Directive} {diagnostic : Diagnostic}
    (h : sharedOutput? ds = some diagnostic) : diagnostic.code = .duplicateOutput := by
  obtain ⟨⟨key, items⟩, -, hFound⟩ := List.exists_of_findSome?_eq_some h
  match items, hFound with
  | (path, first) :: _ :: _, hFound => cases hFound; rfl

/-- The pairs that definitions are grouped from. -/
theorem keys_definitions (ds : List Directive) :
    (ds.flatMap fun d => d.definitions.map fun decl => (decl.name, d, decl)).map (·.1) =
      ds.flatMap (·.definedNames) := by
  simp [List.map_flatMap, Directive.definedNames, Function.comp_def]

/-- The check for names defined twice finds nothing exactly if no two declarations define one
name. -/
theorem sharedName?_eq_none_iff (ds : List Directive) :
    sharedName? ds = none ↔ ¬ SharesName ds := by
  rw [not_sharesName_iff, ← keys_definitions, nodup_keys_iff, sharedName?,
    List.findSome?_eq_none_iff]
  refine forall_congr' fun group => imp_congr_right fun _ => ?_
  by_cases hTwo : 1 < group.2.length
  · simp [hTwo]
  · simp [hTwo, Nat.not_lt.1 hTwo]

theorem code_of_sharedName? {ds : List Directive} {diagnostic : Diagnostic}
    (h : sharedName? ds = some diagnostic) : diagnostic.code = .duplicateExport := by
  obtain ⟨⟨name, sites⟩, -, hFound⟩ := List.exists_of_findSome?_eq_some h
  dsimp only at hFound
  split at hFound
  · cases hFound; rfl
  · cases hFound

theorem mem_names_definitionsByName_iff (ds : List Directive) (name : String) :
    name ∈ (definitionsByName ds).map (·.1) ↔ ∃ e ∈ ds, name ∈ e.definedNames := by
  rw [definitionsByName, mem_keys_groupByKey_iff, keys_definitions, List.mem_flatMap]

theorem names_contains_iff (ds : List Directive) (name : String) :
    ((definitionsByName ds).map (·.1)).contains name = true ↔ ∃ e ∈ ds, name ∈ e.definedNames := by
  rw [List.contains_iff_mem, mem_names_definitionsByName_iff]

/-- The check for missing definitions finds nothing exactly if every imported name is defined in
some directive. -/
theorem unresolved?_eq_none_iff (ds : List Directive) :
    unresolved? ds = none ↔ ¬ ImportsUndefined ds := by
  simp only [unresolved?, List.findSome?_eq_none_iff, Option.map_eq_none_iff,
    List.find?_eq_none, Bool.not_eq_true', Bool.not_eq_false, names_contains_iff,
    ImportsUndefined, Directive.importedNames, List.mem_map]
  push Not
  simp

theorem code_of_unresolved? {ds : List Directive} {diagnostic : Diagnostic}
    (h : unresolved? ds = some diagnostic) : diagnostic.code = .unresolvedImport := by
  obtain ⟨d, -, hFound⟩ := List.exists_of_findSome?_eq_some h
  obtain ⟨decl, -, rfl⟩ := Option.map_eq_some_iff.1 hFound
  rfl

/-- The check for directives that import from themselves finds nothing exactly if no directive does
so. -/
theorem selfImport?_eq_none_iff (ds : List Directive) :
    selfImport? ds = none ↔ ¬ ImportsItself ds := by
  simp only [selfImport?, List.findSome?_eq_none_iff, Option.map_eq_none_iff,
    List.find?_eq_none, List.contains_iff_mem, ImportsItself, Directive.importedNames,
    List.mem_map]
  push Not
  simp

theorem code_of_selfImport? {ds : List Directive} {diagnostic : Diagnostic}
    (h : selfImport? ds = some diagnostic) : diagnostic.code = .selfImport := by
  obtain ⟨d, -, hFound⟩ := List.exists_of_findSome?_eq_some h
  obtain ⟨decl, -, rfl⟩ := Option.map_eq_some_iff.1 hFound
  rfl

/-- The four checks together let directives pass exactly if none of the four conflicts is there,
whichever comes first. -/
theorem conflict?_eq_none_iff (ds : List Directive) : conflict? ds = none ↔ Consistent ds := by
  have hEq : conflict? ds = none ↔ sharedOutput? ds = none ∧ sharedName? ds = none ∧
      unresolved? ds = none ∧ selfImport? ds = none := by
    unfold conflict?
    cases sharedOutput? ds <;> cases sharedName? ds <;> cases unresolved? ds <;> simp
  rw [hEq, sharedOutput?_eq_none_iff, sharedName?_eq_none_iff, unresolved?_eq_none_iff,
    selfImport?_eq_none_iff]
  constructor
  · rintro ⟨hOutputs, hNames, hImports, hOwn⟩
    exact ⟨hOutputs, hNames, hImports, hOwn⟩
  · rintro ⟨hOutputs, hNames, hImports, hOwn⟩
    exact ⟨hOutputs, hNames, hImports, hOwn⟩

/-- A check that finds something has found a conflict, since it finds nothing exactly where there is
none. -/
private theorem holds_of_some {check : Option Diagnostic} {conflict : Prop}
    (hNone : check = none ↔ ¬ conflict) {diagnostic : Diagnostic}
    (h : check = some diagnostic) : conflict := by
  by_contra hNot
  rw [hNone.2 hNot] at h
  cases h

/-- The conflict that is told is the first one. -/
theorem firstConflict_of_conflict? {ds : List Directive} {diagnostic : Diagnostic}
    (h : conflict? ds = some diagnostic) : FirstConflict ds diagnostic.code := by
  unfold conflict? at h
  cases hOutput : sharedOutput? ds with
  | some found =>
      rw [hOutput] at h
      obtain rfl : found = diagnostic := Option.some.inj h
      rw [code_of_sharedOutput? hOutput]
      exact .output (holds_of_some (sharedOutput?_eq_none_iff ds) hOutput)
  | none =>
      have hOutputs := (sharedOutput?_eq_none_iff ds).1 hOutput
      cases hName : sharedName? ds with
      | some found =>
          rw [hOutput, hName] at h
          obtain rfl : found = diagnostic := Option.some.inj h
          rw [code_of_sharedName? hName]
          exact .name hOutputs (holds_of_some (sharedName?_eq_none_iff ds) hName)
      | none =>
          have hNames := (sharedName?_eq_none_iff ds).1 hName
          cases hImport : unresolved? ds with
          | some found =>
              rw [hOutput, hName, hImport] at h
              obtain rfl : found = diagnostic := Option.some.inj h
              rw [code_of_unresolved? hImport]
              exact .undefined hOutputs hNames
                (holds_of_some (unresolved?_eq_none_iff ds) hImport)
          | none =>
              have hImports := (unresolved?_eq_none_iff ds).1 hImport
              rw [hOutput, hName, hImport] at h
              have hOwn : selfImport? ds = some diagnostic := h
              rw [code_of_selfImport? hOwn]
              exact .itself hOutputs hNames hImports
                (holds_of_some (selfImport?_eq_none_iff ds) hOwn)

end Resolution

end Metagen
