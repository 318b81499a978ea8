import Metagen.Proofs.Directive.Stepping
import Metagen.Proofs.Grouping

/-! What a scan promises about declarations: every one of them stands in a header, and no header
declares a name twice in one way. -/

namespace Metagen

open Text

/-- Every declaration is one that a header makes. -/
def OfHeader (decls : List Declaration) : Prop := ∀ decl ∈ decls, decl.kind ≠ .implicit

/-- No name is declared twice in one way. -/
def DistinctDeclarations (decls : List Declaration) : Prop :=
  (decls.map fun decl => (decl.kind, decl.name)).Nodup

/-- What holds of the declarations of a directive that has just been found. -/
structure Directive.Declared (d : Directive) : Prop where
  of_header : OfHeader d.decls
  distinct : DistinctDeclarations d.decls

theorem DeclKind.ofHeader?_ne_implicit {s : String} {kind : DeclKind}
    (h : DeclKind.ofHeader? s = some kind) : kind ≠ .implicit := by
  have hMem := List.mem_of_find?_eq_some h
  rintro rfl
  simp at hMem

/-- Words of a header declare exports, imports and globals. Implicit imports are added later and are
never declared. -/
theorem Header.parse_kind {remainder : String} {decls : List (DeclKind × String)}
    (h : Header.parse remainder = .ok decls) : ∀ decl ∈ decls, decl.1 ≠ .implicit := by
  unfold Header.parse at h
  dsimp only at h
  split at h
  · cases h
    simp
  · split at h
    · cases h
    · next kind hKind =>
      split at h
      · cases h
      · split at h
        · cases h
        · obtain rfl := Except.ok.inj h
          intro decl hDecl
          obtain ⟨name, -, rfl⟩ := List.mem_map.1 hDecl
          exact DeclKind.ofHeader?_ne_implicit hKind

/-- A header without a repeated declaration has none. -/
theorem Header.distinct_of_repeated?_eq_none {decls : List Declaration}
    (h : Header.repeated? decls = none) : DistinctDeclarations decls := by
  have hKeys : (decls.map fun d => ((d.kind, d.name), d.line)).map (·.1) =
      decls.map fun decl => (decl.kind, decl.name) := by simp
  rw [DistinctDeclarations, ← hKeys, nodup_keys_iff]
  rintro ⟨⟨kind, name⟩, lines⟩ hGroup
  have hNone := List.findSome?_eq_none_iff.1 h _ hGroup
  simpa using hNone

namespace Scan

/-- What holds of the declarations at each place of a source: those of a header are checked when it
ends. -/
def Position.Declared : Position → Prop
  | .outside _ => True
  | .header h => OfHeader h.decls
  | .body b => OfHeader b.decls ∧ DistinctDeclarations b.decls

variable {dir : String} {file : SourceFile} {mode : ScanMode} {line : Nat} {text : String}
  {place : Position} {r : Option Directive × Position}

/-- Taking over the declarations of one more line keeps all of them as the header declares them. -/
theorem ofHeader_declaring {h : OpenHeader} {remainder : String}
    {decls : List (DeclKind × String)} (hOpen : OfHeader h.decls)
    (hParse : Header.parse remainder = .ok decls) : OfHeader (h.declaring line decls).decls := by
  intro decl hDecl
  rcases OpenHeader.mem_declaring hDecl with hOld | hNew
  · exact hOpen decl hOld
  · exact Header.parse_kind hParse _ hNew

/-- A header line keeps the header well declared, and the directive that a line completes is
declared well too. -/
theorem headerStep_declared {remainder : String} {h : OpenHeader} (hOpen : OfHeader h.decls)
    (hStep : HeaderStep file mode line remainder h r) :
    (∀ d ∈ r.1, d.Declared) ∧ r.2.Declared := by
  cases hStep with
  | more _ hParse => exact ⟨by simp, ofHeader_declaring hOpen hParse⟩
  | ends _ hParse hChecked =>
      refine ⟨?_, trivial⟩
      rintro d ⟨⟩
      exact ⟨ofHeader_declaring hOpen hParse, Header.distinct_of_repeated?_eq_none hChecked⟩

/-- Lines of a body change no declarations, so that the directive a body ends with is declared as
its header was. -/
theorem bodyStep_declared {b : OpenBody} (hOpen : OfHeader b.decls)
    (hDistinct : DistinctDeclarations b.decls) (hStep : BodyStep file text b mode r) :
    (∀ d ∈ r.1, d.Declared) ∧ r.2.Declared := by
  cases hStep with
  | more => exact ⟨by simp, hOpen, hDistinct⟩
  | ends =>
      refine ⟨?_, trivial⟩
      rintro d ⟨⟩
      exact ⟨hOpen, hDistinct⟩

/-- Reading one line keeps what is known of declarations, and a directive that ends there has it. -/
theorem step_declared (hPlace : place.Declared)
    (hStep : LineStep dir file mode line text place r) :
    (∀ d ∈ r.1, d.Declared) ∧ r.2.Declared := by
  cases hStep with
  | names => exact ⟨by simp, trivial⟩
  | passes => exact ⟨by simp, trivial⟩
  | opens _ hStep => exact headerStep_declared (by simp [OfHeader]) hStep
  | goesOn _ hStep => exact headerStep_declared hPlace hStep
  | @begins h _ _ hChecked hStep =>
      exact bodyStep_declared (b := { h with bodyLine := line }) hPlace
        (Header.distinct_of_repeated?_eq_none hChecked) hStep
  | continues hStep => exact bodyStep_declared hPlace.1 hPlace.2 hStep

/-- What the end of the lines completes is declared as its header was, as no declaration comes in
there. -/
theorem finish_declared {ds : List Directive} (hPlace : place.Declared)
    (hStep : EndStep file line mode place ds) : ∀ d ∈ ds, d.Declared := by
  cases hStep with
  | outside => simp
  | header hChecked =>
      exact List.forall_mem_singleton.2 ⟨hPlace, Header.distinct_of_repeated?_eq_none hChecked⟩
  | body => exact List.forall_mem_singleton.2 ⟨hPlace.1, hPlace.2⟩

/-- By induction over the lines: every directive that is found declares what its header lines say,
and no name twice in one way. -/
theorem directivesFrom_declared {texts : List String} {ds : List Directive}
    {warnings rest : Array String} (hPlace : place.Declared)
    (hRun : directivesFrom dir file mode line texts place warnings = .ok ds rest) :
    ∀ d ∈ ds, d.Declared := by
  induction texts generalizing line place ds warnings rest with
  | nil => exact finish_declared hPlace (finish_ok hRun)
  | cons text texts ih =>
      obtain ⟨found, next, more, _, hStep, hMore, rfl⟩ := directivesFrom_ok hRun
      obtain ⟨hFound, hNext⟩ := step_declared hPlace hStep
      intro d hd
      rcases List.mem_append.1 hd with hd | hd
      · exact hFound d (Option.mem_toList.1 hd)
      · exact ih hNext hMore d hd

end Scan

/-- All directives that a scan finds have declared what they declare, each once. -/
theorem scan_declared {dir : String} {sources : List SourceUnit} {ds : List Directive}
    {warnings rest : Array String} (hRun : scan dir sources warnings = .ok ds rest) :
    ∀ d ∈ ds, d.Declared := by
  intro d hd
  obtain ⟨source, -, found, before, behind, hFound, hMem⟩ := scan_ok hRun d hd
  have hPlace : (Scan.Position.outside none).Declared := trivial
  exact Scan.directivesFrom_declared hPlace hFound d hMem

end Metagen
