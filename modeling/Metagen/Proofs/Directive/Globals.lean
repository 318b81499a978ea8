import Metagen.Proofs.Directive.Location

/-! The names of a header in the script of its directive: each name that the directive defines is
declared global on a line of its own, and nothing else stands on these lines. -/

namespace Metagen

namespace Directive

def script (d : Directive) : SourceFile := .ofText d.label d.scriptText

/-- All problems of the report start behind the preamble of the directive's script. -/
def Below (d : Directive) (r : Report) : Prop :=
  ∀ p ∈ r.kept, d.preamble.length < p.span.start.line

/-- The script of a directive declares the names that the directive defines, in order, one on each
line from the second line to the end of its preamble. There is nothing else on these lines. -/
structure DeclaresNames (d : Directive) : Prop where
  length : d.preamble.length = d.definedNames.length + 1
  /-- The first line is empty but for its end, and all other tokens are behind the preamble. -/
  tokens : ∃ lineEnd declared more,
    (Script.tokens d.script).1 = ⟨.mark .newline, lineEnd⟩ :: declared ++ more ∧
      lineEnd.start.line = 1 ∧ Script.Scan.Declare 2 d.definedNames declared ∧
      ∀ t ∈ more, d.preamble.length < t.span.start.line
  faults : d.Below (Script.tokens d.script).2
  problems : d.Below (Script.parseTokens d.script (Script.tokens d.script).1).report
  reported : d.Below (Script.parse d.script).report
  program : ∀ program ∈ (Script.parse d.script).program, ∃ globals own,
    program.stmts = globals ++ own ∧
      List.Forall₂ Script.Grammar.DeclaresGlobal d.definedNames globals

variable {d : Directive}

/-- What is in the lines of the directive is behind the preamble. -/
theorem line_of_hasPosition {p : Position} (h : d.bodyPlace.HasPosition p) :
    d.preamble.length < p.line := by
  have hLine : d.definedNames.length + 2 ≤ p.line := h.line_ge
  rw [length_preamble]
  exact hLine

theorem below_of_stands {r : Report} (h : Script.ReportStands d.bodyPlace r) : d.Below r :=
  fun p hp => line_of_hasPosition (h.kept p hp)

/-- If the path has no line feed and the names have passed the check of headers, then the preamble
of the script declares them and nothing else. -/
theorem declaresNames (hPath : '\n' ∉ d.file.path.toList)
    (hNames : ∀ name ∈ d.definedNames, Header.nameFault? name = none) : d.DeclaresNames := by
  have hLabel := notMem_label hPath
  have hGlobals : ∀ name ∈ d.definedNames, Script.Scan.IsGlobalName name :=
    fun name hName => isGlobalName_of_nameFault? (hNames name hName)
  have hText : d.script.text.toList = _ := d.toList_scriptText
  obtain ⟨lineEnd, declared, more, hLine, hDeclared, hTokens, hMore, hFaults⟩ :=
    Script.tokens_preamble hLabel hGlobals hText
  have hParsed := Script.stands_parse hLabel hGlobals hText
  constructor
  · exact d.length_preamble
  · exact ⟨lineEnd, declared, more, hTokens, hLine, hDeclared,
      fun t ht => line_of_hasPosition (hMore.hasPosition ht)⟩
  · exact below_of_stands hFaults
  · exact below_of_stands (Script.stands_parseTokens hLabel hGlobals hText).report
  · exact below_of_stands hParsed.report
  · intro program hProgram
    obtain ⟨globals, own, hStmts, hDeclares, -⟩ := hParsed.program program hProgram
    exact ⟨globals, own, hStmts, hDeclares⟩

end Directive

/-- A header line declares what its text says in the language of headers, and nothing else is
accepted. Whatever names a header defines, the lexer and the grammar read them in the preamble of
the script as declarations of globals. -/
theorem header_names_are_globals :
    (∀ (remainder : String) (decls : List (DeclKind × String)),
      Header.parse remainder = .ok decls ↔ HeaderText remainder.toList decls) ∧
    ∀ (dir : String) (sources : List SourceUnit) (warnings : Array String) (ds : List Directive)
      (after : Array String), scan dir sources warnings = .ok ds after → ∀ d ∈ ds,
        '\n' ∉ d.file.path.toList → d.DeclaresNames := by
  refine ⟨fun _ _ => Header.parse_eq_ok_iff, ?_⟩
  intro dir sources warnings ds after hScan d hd hPath
  obtain ⟨source, -, -, hPlaced⟩ := scan_placedInSource hScan d hd
  exact Directive.declaresNames hPath hPlaced.named_definedNames

/-- A source with a directive that defines a name of each kind. -/
def definingSources : List SourceUnit :=
  [.ofText "a.c" "/* #meta export A\n#meta global B\nset A = 1\n*/\n"]

/-- A header line that imports two names is read, and a directive that defines a name of each kind
declares both in its preamble. -/
theorem header_names_are_globals_definingSources :
    HeaderText " import A , B ".toList [(.imports, "A"), (.imports, "B")] ∧
      ∃ ds rest d, scan "out" definingSources #[] = .ok ds rest ∧ d ∈ ds ∧
        '\n' ∉ d.file.path.toList ∧ d.definedNames = ["A", "B"] ∧ d.DeclaresNames := by
  have hRun : ((scan "out" definingSources).run' #[]).any (fun ds => ds.any fun d =>
      !d.file.path.toList.contains '\n' && d.definedNames == ["A", "B"]) = true := by
    decide +kernel
  refine ⟨(header_names_are_globals.1 _ _).1 (by decide +kernel), ?_⟩
  obtain ⟨ds, hds, hAny⟩ := (Option.any_eq_true _ _).1 hRun
  obtain ⟨d, hd, hAll⟩ := List.any_eq_true.1 hAny
  simp only [Bool.and_eq_true, Bool.not_eq_true', List.contains_eq_mem, decide_eq_false_iff_not,
    beq_iff_eq] at hAll
  obtain ⟨rest, hScan⟩ := run'_eq_some_iff.1 hds
  exact ⟨ds, rest, d, hScan, hd, hAll.1, hAll.2,
    header_names_are_globals.2 _ _ _ _ _ hScan d hd hAll.1⟩

end Metagen
