import Metagen.Proofs.Directive.Conflict
import Mathlib.Data.List.Nodup

/-! What resolution settles. It fails just when directives are in conflict, and then leaves them as
they were. Otherwise directives gain imports and nothing else, and the dependencies are exactly the
pairs of a directive that defines a name and another one that imports it. -/

namespace Metagen

namespace Directive

/-- The directive with imports that its header does not name. -/
def withImplicit (d : Directive) (names : List String) : Directive :=
  { d with decls := d.decls ++ names.map fun name => ⟨.implicit, name, d.headerLine⟩ }

variable (d : Directive) (names : List String)

@[simp] theorem withImplicit_nil : d.withImplicit [] = d := by
  simp [withImplicit]

@[simp] theorem definitions_withImplicit : (d.withImplicit names).definitions = d.definitions := by
  simp [withImplicit, definitions, List.filter_map, Function.comp_def, DeclKind.isDefinition]

@[simp] theorem definedNames_withImplicit :
    (d.withImplicit names).definedNames = d.definedNames := by
  simp [definedNames]

@[simp] theorem importedNames_withImplicit :
    (d.withImplicit names).importedNames = d.importedNames ++ names := by
  simp [withImplicit, importedNames, imports, List.filter_map, Function.comp_def,
    DeclKind.isImport, DeclKind.isDefinition]

theorem declares_iff (name : String) : d.declares name = true ↔ name ∈ d.decls.map (·.name) := by
  simp [declares]

theorem mem_definedNames_of_kind {decl : Declaration} (hDecl : decl ∈ d.decls)
    (hKind : decl.kind.isDefinition = true) : decl.name ∈ d.definedNames :=
  List.mem_map_of_mem (List.mem_filter.2 ⟨hDecl, hKind⟩)

theorem declares_of_mem_definedNames {name : String} (h : name ∈ d.definedNames) :
    d.declares name = true := by
  rw [declares_iff]
  exact (List.filter_sublist.map _).subset h

theorem declares_of_mem_importedNames {name : String} (h : name ∈ d.importedNames) :
    d.declares name = true := by
  rw [declares_iff]
  exact (List.filter_sublist.map _).subset h

theorem mem_definedNames_of_mem_globalNames {name : String} (h : name ∈ d.globalNames) :
    name ∈ d.definedNames := by
  obtain ⟨decl, hDecl, rfl⟩ := List.mem_map.1 h
  obtain ⟨hDecl, hKind⟩ := List.mem_filter.1 hDecl
  exact mem_definedNames_of_kind d hDecl (by rw [eq_of_beq hKind]; rfl)

/-- A header that names nothing declares nothing, unless imports were added to it. -/
theorem isExplicit_eq_false_iff (hHeader : OfHeader d.decls) :
    d.isExplicit = false ↔ d.decls = [] := by
  rw [isExplicit, List.any_eq_false, List.eq_nil_iff_forall_not_mem]
  refine forall_congr' fun decl => ⟨fun h hDecl => ?_, fun h hDecl => (h hDecl).elim⟩
  exact h hDecl (by simpa using hHeader decl hDecl)

/-- Names are distinct among the imports of a header that declares nothing twice. -/
theorem Declared.nodup_importedNames {d : Directive} (h : d.Declared) :
    d.importedNames.Nodup := by
  have hImport : ∀ decl ∈ d.imports, decl.kind = .imports := by
    intro decl hDecl
    obtain ⟨hDecl, hKind⟩ := List.mem_filter.1 hDecl
    have hHeader := h.of_header decl hDecl
    cases hk : decl.kind <;> simp_all [DeclKind.isImport, DeclKind.isDefinition]
  have hPairs : (d.imports.map fun decl => (decl.kind, decl.name)).Nodup :=
    h.distinct.sublist (List.filter_sublist.map _)
  have hEq : d.imports.map (fun decl => (decl.kind, decl.name)) =
      d.importedNames.map fun name => (DeclKind.imports, name) := by
    rw [importedNames, List.map_map]
    exact List.map_congr_left fun decl hDecl => by rw [hImport decl hDecl]; rfl
  rw [hEq] at hPairs
  exact hPairs.of_map _

end Directive

namespace Resolution

/-- Adding names one by one adds those that were not declared, each once. -/
theorem foldl_addImplicit (d : Directive) (names : List String) :
    ∃ added : List String, names.foldl addImplicit d = d.withImplicit added ∧ added.Nodup ∧
      ∀ name, name ∈ added ↔ name ∈ names ∧ d.declares name = false := by
  induction names generalizing d with
  | nil => exact ⟨[], by simp, List.nodup_nil, by simp⟩
  | cons first rest ih =>
      rw [List.foldl_cons, addImplicit]
      split
      · next hOld =>
        obtain ⟨added, hEq, hNodup, hMem⟩ := ih d
        refine ⟨added, hEq, hNodup, fun name => ?_⟩
        rw [hMem, List.mem_cons]
        constructor
        · rintro ⟨hName, hNew⟩
          exact ⟨.inr hName, hNew⟩
        · rintro ⟨rfl | hName, hNew⟩
          · rw [hOld] at hNew
            cases hNew
          · exact ⟨hName, hNew⟩
      · next hNew =>
        change ∃ added, rest.foldl addImplicit (d.withImplicit [first]) = _ ∧ _
        obtain ⟨added, hEq, hNodup, hMem⟩ := ih (d.withImplicit [first])
        have hDeclares : ∀ name, (d.withImplicit [first]).declares name = false ↔
            d.declares name = false ∧ name ≠ first := by
          intro name
          simp only [Directive.declares, Directive.withImplicit, List.any_append, List.map_cons,
            List.map_nil, List.any_cons, List.any_nil, Bool.or_false, Bool.or_eq_false_iff,
            beq_eq_false_iff_ne]
          exact and_congr_right fun _ => ne_comm
        refine ⟨first :: added, ?_, ?_, fun name => ?_⟩
        · rw [hEq]
          simp [Directive.withImplicit]
        · refine List.nodup_cons.2 ⟨fun hFirst => ?_, hNodup⟩
          exact ((hDeclares first).1 ((hMem first).1 hFirst).2).2 rfl
        · rw [List.mem_cons, hMem, hDeclares, List.mem_cons]
          by_cases hName : name = first
          · subst hName
            simp [Bool.eq_false_iff.2 hNew]
          · simp [hName]

/-- What a directive looks like after its imports are completed, among all directives. -/
theorem withImplicitImports_getElem? (ds : List Directive) (i : Nat) :
    (withImplicitImports ds)[i]? = ds[i]?.map fun d =>
      (implicitNames (ds.flatMap (·.definedNames)) (ds.flatMap (·.globalNames)) d).foldl
        addImplicit d := by
  simp [withImplicitImports]

/-- A name is asked for exactly if the directive leaves its header empty and some directive defines
the name, or it leaves its list of globals empty and the name is global somewhere. -/
theorem mem_implicitNames_iff (ds : List Directive) (d : Directive) (name : String) :
    name ∈ implicitNames (ds.flatMap (·.definedNames)) (ds.flatMap (·.globalNames)) d ↔
      (d.isExplicit = false ∧ ∃ e ∈ ds, name ∈ e.definedNames) ∨
        d.hasGlobals = false ∧ ∃ e ∈ ds, name ∈ e.globalNames := by
  rw [implicitNames, List.mem_append]
  cases d.isExplicit <;> cases d.hasGlobals <;> simp [List.mem_flatMap]

end Resolution

/-- A directive has gained imports: those it asks for by leaving its header or its list of globals
empty, and none that it declares. -/
def GainsImports (ds : List Directive) (d e : Directive) : Prop :=
  ∃ added : List String, e = d.withImplicit added ∧ added.Nodup ∧
    ∀ name, name ∈ added ↔ d.declares name = false ∧
      ((d.isExplicit = false ∧ ∃ o ∈ ds, name ∈ o.definedNames) ∨
        d.hasGlobals = false ∧ ∃ o ∈ ds, name ∈ o.globalNames)

/-- Adding the names that a directive asks for gives it those of them that it does not declare, each
once. -/
theorem Resolution.gainsImports (ds : List Directive) (d : Directive) :
    GainsImports ds d ((implicitNames (ds.flatMap (·.definedNames)) (ds.flatMap (·.globalNames))
      d).foldl addImplicit d) := by
  obtain ⟨added, hEq, hNodup, hMem⟩ := foldl_addImplicit d
    (implicitNames (ds.flatMap (·.definedNames)) (ds.flatMap (·.globalNames)) d)
  refine ⟨added, hEq, hNodup, fun name => ?_⟩
  rw [hMem, mem_implicitNames_iff, and_comm]

namespace Resolution

/-- With distinct names the definer of a name is the one directive that defines it. -/
theorem definer?_eq_some_iff {ds : List Directive} (h : (ds.flatMap (·.definedNames)).Nodup)
    (name : String) (p : Nat) :
    definer? ds name = some p ↔ ∃ d, ds[p]? = some d ∧ name ∈ d.definedNames := by
  rw [definer?, List.findIdx?_eq_some_iff_getElem]
  constructor
  · rintro ⟨hp, hName, -⟩
    exact ⟨ds[p], List.getElem?_eq_getElem hp, List.contains_iff_mem.1 hName⟩
  · rintro ⟨d, hd, hName⟩
    obtain ⟨hp, rfl⟩ := List.getElem?_eq_some_iff.1 hd
    refine ⟨hp, List.contains_iff_mem.2 hName, fun j hj hOther => ?_⟩
    have hDisjoint := (List.pairwise_iff_getElem.1 (List.nodup_flatMap.1 h).2) j p
      (by omega) hp hj
    exact hDisjoint (List.contains_iff_mem.1 hOther) hName

/-- An edge of the graph stands for an import: the consumer imports a name that the provider
defines. -/
theorem mem_edges_graph_iff (ds : List Directive) (p c : Nat) :
    (p, c) ∈ (graph ds).edges ↔
      ∃ e, ds[c]? = some e ∧ ∃ name ∈ e.importedNames, definer? ds name = some p := by
  simp only [graph, List.mem_flatMap, Prod.exists, List.mem_zipIdx_iff_getElem?,
    List.mem_eraseDups, List.mem_map, List.mem_filterMap, Prod.mk.injEq]
  constructor
  · rintro ⟨e, c', hc, p', ⟨name, hName, hDefiner⟩, rfl, rfl⟩
    exact ⟨e, hc, name, hName, hDefiner⟩
  · rintro ⟨e, hc, name, hName, hDefiner⟩
    exact ⟨e, c, hc, p, ⟨name, hName, hDefiner⟩, rfl, rfl⟩

/-- However many names are imported from one directive into another, the graph has one edge for
them. -/
theorem nodup_edges_graph (ds : List Directive) : (graph ds).edges.Nodup := by
  refine List.nodup_flatMap.2 ⟨fun (_, _) _ => nodup_eraseDups _, ?_⟩
  have hNumbers : (ds.zipIdx.map (·.2)).Nodup := by
    rw [List.zipIdx_map_snd]
    exact List.nodup_range'
  refine (List.pairwise_map.1 hNumbers).imp ?_
  rintro ⟨d, i⟩ ⟨e, j⟩ hNe ⟨p, c⟩ hLeft hRight
  obtain ⟨_, -, hLeft⟩ := List.mem_map.1 (List.mem_eraseDups.1 hLeft)
  obtain ⟨_, -, hRight⟩ := List.mem_map.1 (List.mem_eraseDups.1 hRight)
  cases hLeft
  cases hRight
  exact hNe rfl

end Resolution

/-- What resolution leaves of directives without conflicts: each of them completed, and the
dependencies between them. -/
structure Resolved (ds after : List Directive) (g : DependencyGraph) : Prop where
  length_eq : after.length = ds.length
  completes : ∀ (i : Nat) d e, ds[i]? = some d → after[i]? = some e → GainsImports ds d e
  edges_nodup : g.edges.Nodup
  mem_edges_iff : ∀ p c, (p, c) ∈ g.edges ↔
    ∃ (d e : Directive) (name : String), after[p]? = some d ∧ after[c]? = some e ∧
      name ∈ d.definedNames ∧ name ∈ e.importedNames
  provider_ne : ∀ p c, (p, c) ∈ g.edges → p ≠ c
  one_provider : ∀ (c : Nat) (e : Directive) name, after[c]? = some e → name ∈ e.importedNames →
    ∃! p : Nat, ∃ d, after[p]? = some d ∧ name ∈ d.definedNames

namespace Resolution

/-- Imports that are added define nothing, so that the definitions of all directives stay the same,
in their order. -/
theorem flatMap_definedNames_withImplicitImports (ds : List Directive) :
    (withImplicitImports ds).flatMap (·.definedNames) = ds.flatMap (·.definedNames) := by
  rw [withImplicitImports, List.flatMap_map]
  refine List.flatMap_congr fun d _ => ?_
  obtain ⟨added, hEq, -⟩ := foldl_addImplicit d
    (implicitNames (ds.flatMap (·.definedNames)) (ds.flatMap (·.globalNames)) d)
  rw [hEq, Directive.definedNames_withImplicit]

/-- A completed directive imports what some directive defines, and nothing of its own. -/
theorem completed_imports {ds : List Directive} (h : Consistent ds) {d e : Directive}
    (hd : d ∈ ds) (hCompletes : GainsImports ds d e) {name : String}
    (hName : name ∈ e.importedNames) :
    (∃ o ∈ ds, name ∈ o.definedNames) ∧ name ∉ e.definedNames := by
  obtain ⟨added, rfl, -, hMem⟩ := hCompletes
  rw [Directive.importedNames_withImplicit, List.mem_append] at hName
  rw [Directive.definedNames_withImplicit]
  rcases hName with hOld | hNew
  · constructor
    · by_contra hNone
      push Not at hNone
      exact h.imports ⟨d, hd, name, hOld, hNone⟩
    · exact fun hOwn => h.own ⟨d, hd, name, hOld, hOwn⟩
  · obtain ⟨hFresh, hWhy⟩ := (hMem name).1 hNew
    constructor
    · rcases hWhy with ⟨-, hDefined⟩ | ⟨-, o, ho, hGlobal⟩
      · exact hDefined
      · exact ⟨o, ho, o.mem_definedNames_of_mem_globalNames hGlobal⟩
    · intro hOwn
      rw [d.declares_of_mem_definedNames hOwn] at hFresh
      cases hFresh

/-- Directives without a conflict are resolved by adding the imports that no header names and
joining providers to consumers. -/
theorem resolved_of_consistent {ds : List Directive} (h : Consistent ds) :
    Resolved ds (withImplicitImports ds) (graph (withImplicitImports ds)) := by
  let after := withImplicitImports ds
  have hLength : after.length = ds.length := by simp [after, withImplicitImports]
  have hCompletes : ∀ (i : Nat) d e, ds[i]? = some d → after[i]? = some e →
      GainsImports ds d e := by
    intro i d e hd he
    rw [withImplicitImports_getElem?, hd] at he
    cases he
    exact gainsImports ds d
  have hImports : ∀ (c : Nat) e name, after[c]? = some e → name ∈ e.importedNames →
      (∃ o ∈ ds, name ∈ o.definedNames) ∧ name ∉ e.definedNames := by
    intro c e name he hName
    have hc : c < ds.length := hLength ▸ (List.getElem?_eq_some_iff.1 he).1
    exact completed_imports h (List.getElem_mem hc)
      (hCompletes c ds[c] e (List.getElem?_eq_getElem hc) he) hName
  have hDistinct : (after.flatMap (·.definedNames)).Nodup := by
    rw [flatMap_definedNames_withImplicitImports]
    exact (not_sharesName_iff ds).1 h.names
  have hEdges : ∀ p c, (p, c) ∈ (graph after).edges ↔
      ∃ d e name, after[p]? = some d ∧ after[c]? = some e ∧ name ∈ d.definedNames ∧
        name ∈ e.importedNames := by
    intro p c
    rw [mem_edges_graph_iff]
    constructor
    · rintro ⟨e, he, name, hName, hDefiner⟩
      obtain ⟨d, hd, hDefined⟩ := (definer?_eq_some_iff hDistinct name p).1 hDefiner
      exact ⟨d, e, name, hd, he, hDefined, hName⟩
    · rintro ⟨d, e, name, hd, he, hDefined, hName⟩
      exact ⟨e, he, name, hName, (definer?_eq_some_iff hDistinct name p).2 ⟨d, hd, hDefined⟩⟩
  refine ⟨hLength, hCompletes, nodup_edges_graph after, hEdges, ?_, ?_⟩
  · rintro p _ hEdge rfl
    obtain ⟨d, e, name, hd, he, hDefined, hName⟩ := (hEdges _ _).1 hEdge
    obtain rfl : d = e := Option.some.inj (hd.symm.trans he)
    exact (hImports p d name hd hName).2 hDefined
  · intro c e name he hName
    obtain ⟨⟨o, ho, hDefined⟩, -⟩ := hImports c e name he hName
    have hAfter : name ∈ after.flatMap (·.definedNames) := by
      rw [flatMap_definedNames_withImplicitImports]
      exact List.mem_flatMap.2 ⟨o, ho, hDefined⟩
    obtain ⟨d, hd, hDefined⟩ := List.mem_flatMap.1 hAfter
    obtain ⟨p, hp⟩ := List.mem_iff_getElem?.1 hd
    refine ⟨p, ⟨d, hp, hDefined⟩, fun q hq => ?_⟩
    have hLeft := (definer?_eq_some_iff hDistinct name q).2 hq
    have hRight := (definer?_eq_some_iff hDistinct name p).2 ⟨d, hp, hDefined⟩
    exact Option.some.inj (hLeft.symm.trans hRight)

/-- Resolution fails with the conflict that counts and then leaves the directives alone; otherwise
it completes them and gives the graph. -/
theorem inPlace_eq (ds : List Directive) :
    inPlace ds = match conflict? ds with
      | some diagnostic => .error diagnostic ds
      | none => .ok (graph (withImplicitImports ds)) (withImplicitImports ds) := by
  change EStateM.bind refuseConflict _ ds = _
  have hRefuse : refuseConflict ds = match conflict? ds with
      | some diagnostic => .error diagnostic ds
      | none => .ok () ds := by
    have hGet : (get : EStateM Diagnostic (List Directive) _) ds = .ok ds ds := rfl
    simp only [refuseConflict, bind, EStateM.bind, hGet]
    cases conflict? ds <;> rfl
  rw [EStateM.bind, hRefuse]
  cases conflict? ds <;> rfl

end Resolution

/-- A directive that a scan has found, with all its imports: its declarations come first and the
rest are imports that no header names, so it imports what it declares as imports, everything if it
declares nothing, and everything global if it declares nothing global, but not what it declares. -/
structure Directive.CompletedFrom (ds : List Directive) (d e : Directive) : Prop where
  decls_eq : ∃ added, e = { d with decls := d.decls ++ added } ∧
    ∀ decl ∈ added, decl.kind = .implicit
  mem_importedNames_iff : ∀ name, name ∈ e.importedNames ↔
    (∃ decl ∈ d.decls, decl.kind = .imports ∧ decl.name = name) ∨
      (∀ decl ∈ d.decls, decl.name ≠ name) ∧
        (d.decls = [] ∧ (∃ o ∈ ds, name ∈ o.definedNames) ∨
          (∀ decl ∈ d.decls, decl.kind ≠ .global) ∧ ∃ o ∈ ds, name ∈ o.globalNames)
  importedNames_nodup : e.importedNames.Nodup

/-- What a directive that has just been found imports is what its header lines list as imports,
since nothing else has been added so far. -/
theorem Directive.Declared.mem_importedNames_iff {d : Directive} (h : d.Declared) (name : String) :
    name ∈ d.importedNames ↔ ∃ decl ∈ d.decls, decl.kind = .imports ∧ decl.name = name := by
  rw [importedNames, List.mem_map]
  constructor
  · rintro ⟨decl, hDecl, hName⟩
    obtain ⟨hDecl, hKind⟩ := List.mem_filter.1 hDecl
    have hHeader := h.of_header decl hDecl
    refine ⟨decl, hDecl, ?_, hName⟩
    cases hk : decl.kind <;> simp_all [DeclKind.isImport, DeclKind.isDefinition]
  · rintro ⟨decl, hDecl, hKind, hName⟩
    exact ⟨decl, List.mem_filter.2 ⟨hDecl, by rw [hKind]; rfl⟩, hName⟩

/-- With the imports it has gained a directive imports what it declares as imports, and what it asks
for by declaring nothing, each name once. -/
theorem Directive.Declared.completedFrom {ds : List Directive} {d e : Directive} (h : d.Declared)
    (hCompletes : GainsImports ds d e) : d.CompletedFrom ds e := by
  obtain ⟨added, rfl, hNodup, hMem⟩ := hCompletes
  refine ⟨⟨_, rfl, ?_⟩, fun name => ?_, ?_⟩
  · intro decl hDecl
    obtain ⟨name, -, rfl⟩ := List.mem_map.1 hDecl
    rfl
  · have hFresh : d.declares name = false ↔ ∀ decl ∈ d.decls, decl.name ≠ name := by
      simp [declares]
    have hGlobals : d.hasGlobals = false ↔ ∀ decl ∈ d.decls, decl.kind ≠ .global := by
      simp [hasGlobals]
    rw [importedNames_withImplicit, List.mem_append, h.mem_importedNames_iff, hMem, hFresh,
      isExplicit_eq_false_iff d h.of_header, hGlobals]
  · rw [importedNames_withImplicit, List.nodup_append]
    refine ⟨h.nodup_importedNames, hNodup, ?_⟩
    rintro name hOld _ hNew rfl
    have hFresh := ((hMem name).1 hNew).1
    rw [d.declares_of_mem_importedNames hOld] at hFresh
    cases hFresh

/-- Resolution gives a result exactly where the directives are resolved in place, and it is the same
result. -/
theorem resolve_eq_ok_iff (ds after : List Directive) (g : DependencyGraph) :
    resolve ds = .ok (after, g) ↔ Resolution.inPlace ds = .ok g after := by
  rw [resolve]
  cases Resolution.inPlace ds with
  | ok graph changed =>
      constructor
      · intro h
        cases h
        rfl
      · intro h
        cases h
        rfl
  | error diagnostic changed => simp

/-- Resolution fails exactly with the conflict that counts, and with no other diagnostic. -/
theorem resolve_eq_error_iff (ds : List Directive) (diagnostic : Diagnostic) :
    resolve ds = .error diagnostic ↔ Resolution.conflict? ds = some diagnostic := by
  rw [resolve, Resolution.inPlace_eq]
  cases Resolution.conflict? ds <;> simp

/-- Completed directives define what they defined, no name twice. -/
theorem Resolved.definitions_nodup {ds after : List Directive} {g : DependencyGraph}
    (h : Resolved ds after g) (hConsistent : Consistent ds) :
    (after.flatMap (·.definedNames)).Nodup := by
  have hSame : after.map (·.definedNames) = ds.map (·.definedNames) := by
    refine List.ext_getElem (by simp [h.length_eq]) fun i hAfter hBefore => ?_
    rw [List.length_map] at hAfter hBefore
    rw [List.getElem_map, List.getElem_map]
    obtain ⟨added, hEq, -⟩ := h.completes i ds[i] after[i] (List.getElem?_eq_getElem hBefore)
      (List.getElem?_eq_getElem hAfter)
    rw [hEq, Directive.definedNames_withImplicit]
  rw [List.flatMap_def, hSame, ← List.flatMap_def]
  exact (not_sharesName_iff ds).1 hConsistent.names

/-- Resolution succeeds on consistent directives alone, and then tells exactly what it settles. -/
theorem resolved_of_resolve {ds after : List Directive} {g : DependencyGraph}
    (h : resolve ds = .ok (after, g)) : Consistent ds ∧ Resolved ds after g := by
  rw [resolve_eq_ok_iff, Resolution.inPlace_eq] at h
  cases hConflict : Resolution.conflict? ds with
  | some diagnostic =>
      rw [hConflict] at h
      cases h
  | none =>
      rw [hConflict] at h
      cases h
      have hConsistent := (Resolution.conflict?_eq_none_iff ds).1 hConflict
      exact ⟨hConsistent, Resolution.resolved_of_consistent hConsistent⟩

/-- Resolution of directives that a scan has found fails just on conflicts, of which the first
counts, and then changes nothing; else it completes every directive and finds all dependencies. -/
theorem resolve_of_scan {dir : String} {sources : List SourceUnit} {ds : List Directive}
    {warnings rest : Array String} (hScan : scan dir sources warnings = .ok ds rest) :
    ((∃ diagnostic, resolve ds = .error diagnostic) ↔
        SharesOutput ds ∨ SharesName ds ∨ ImportsUndefined ds ∨ ImportsItself ds) ∧
      (∀ diagnostic, resolve ds = .error diagnostic →
        FirstConflict ds diagnostic.code ∧ Resolution.inPlace ds = .error diagnostic ds) ∧
      ∀ after g, resolve ds = .ok (after, g) →
        Resolution.inPlace ds = .ok g after ∧ Resolved ds after g ∧
          ∀ (i : Nat) d e, ds[i]? = some d → after[i]? = some e → d.CompletedFrom ds e := by
  refine ⟨?_, fun diagnostic hError => ?_, fun after g hOk => ?_⟩
  · have hSome : (∃ diagnostic, resolve ds = .error diagnostic) ↔ ¬ Consistent ds := by
      rw [← Resolution.conflict?_eq_none_iff, ← ne_eq, Option.ne_none_iff_exists']
      simp only [resolve_eq_error_iff]
    rw [hSome]
    constructor
    · intro hNot
      by_contra hNone
      push Not at hNone
      obtain ⟨hOutputs, hNames, hImports, hOwn⟩ := hNone
      exact hNot ⟨hOutputs, hNames, hImports, hOwn⟩
    · rintro (hConflict | hConflict | hConflict | hConflict) hNone
      · exact hNone.outputs hConflict
      · exact hNone.names hConflict
      · exact hNone.imports hConflict
      · exact hNone.own hConflict
  · rw [resolve_eq_error_iff] at hError
    refine ⟨Resolution.firstConflict_of_conflict? hError, ?_⟩
    rw [Resolution.inPlace_eq, hError]
  · obtain ⟨-, hResolved⟩ := resolved_of_resolve hOk
    refine ⟨(resolve_eq_ok_iff ds after g).1 hOk, hResolved, fun i d e hd he => ?_⟩
    have hDeclared := scan_declared hScan d (List.mem_of_getElem? hd)
    exact hDeclared.completedFrom (hResolved.completes i d e hd he)

/-- A source with a directive that defines two names, one of them global, another one that imports
one of them and exports a third, and one that declares nothing. -/
def linkedSources : List SourceUnit :=
  [.ofText "a.c" ("#include \"gen/a.h\"\n" ++
    "/* #meta export L\n#meta global G\nlet L = [1]\nlet G = 2\n*/\n" ++
    "/* #meta import L\n#meta export N\nlet N = len(L) + G\n*/\n" ++
    "/* #meta\nL.push(N)\n*/\n")]

/-- Three directives, of which the second imports from the first and the third declares nothing, are
resolved without a conflict. -/
theorem resolve_of_scan_linkedSources : ∃ ds rest,
    scan "out" linkedSources #[] = .ok ds rest ∧ ds.length = 3 ∧
      ((∃ diagnostic, resolve ds = .error diagnostic) ↔
        SharesOutput ds ∨ SharesName ds ∨ ImportsUndefined ds ∨ ImportsItself ds) ∧
      (∀ diagnostic, resolve ds = .error diagnostic →
        FirstConflict ds diagnostic.code ∧ Resolution.inPlace ds = .error diagnostic ds) ∧
      ∀ after g, resolve ds = .ok (after, g) →
        Resolution.inPlace ds = .ok g after ∧ Resolved ds after g ∧
          ∀ (i : Nat) d e, ds[i]? = some d → after[i]? = some e → d.CompletedFrom ds e := by
  have hLength : (match scan "out" linkedSources #[] with
      | .ok ds _ => ds.length == 3
      | .error _ _ => false) = true := by decide +kernel
  cases hScan : scan "out" linkedSources #[] with
  | ok ds rest =>
      rw [hScan] at hLength
      exact ⟨ds, rest, rfl, eq_of_beq hLength, resolve_of_scan hScan⟩
  | error diagnostic rest =>
      rw [hScan] at hLength
      cases hLength

end Metagen
