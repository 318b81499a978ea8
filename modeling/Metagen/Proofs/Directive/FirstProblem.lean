import Metagen.Proofs.Directive.Globals
import Metagen.Proofs.Script.Reading

/-! Which problem of its script a directive is refused for. There is always one, and it is the first
by position among those that are kept: the faults of the tokens, in the order they were found, and
behind them what the grammar finds, as far as there is room. -/

namespace Metagen

namespace Directive

variable {d : Directive}

theorem parsed_eq (d : Directive) : d.parsed = Script.parse d.script := rfl

theorem kept_parsed (d : Directive) : d.parsed.report.kept =
    ((Script.tokens d.script).2.kept ++ (Script.grammarReport d.script).kept).take maxProblems := by
  rw [parsed_eq, Script.kept_parse]

/-- Without a problem that is kept, there is none. -/
theorem isSome_program_of_first? (h : d.parsed.report.first? = none) :
    d.parsed.program.isSome = true := by
  have hKept := (Report.first?_spec _).1 h
  rw [kept_parsed, List.take_eq_nil_iff, List.append_eq_nil_iff] at hKept
  obtain ⟨hFaults, hProblems⟩ := hKept.resolve_left (by decide)
  have hNone : ∀ {r : Report}, r.Counted → r.kept = [] → r.total = 0 := by
    intro r hCounted hEmpty
    unfold Report.Counted at hCounted
    rw [hEmpty, maxProblems, List.length_nil] at hCounted
    omega
  rw [parsed_eq, Script.isSome_program_parse]
  exact ⟨hNone (Script.counted_tokens _) hFaults, hNone (Script.counted_grammarReport _) hProblems⟩

/-- A script compiles, or it is refused for a problem. -/
theorem compile_cases (d : Directive) :
    (∃ program, d.parsed.program = some program ∧ d.parsed.report.first? = none ∧
      d.compile = .ok ⟨d.unitMap, d.script, program⟩) ∨
    ∃ p, d.parsed.report.first? = some p ∧ d.compile = .error (d.scriptDiagnostic p) := by
  cases hFirst : d.parsed.report.first? with
  | some p => exact .inr ⟨p, rfl, compile_of_first? hFirst⟩
  | none =>
      obtain ⟨program, hProgram⟩ := Option.isSome_iff_exists.1 (isSome_program_of_first? hFirst)
      refine .inl ⟨program, hProgram, rfl, ?_⟩
      unfold compile
      dsimp only
      rw [show (Script.parse _).report.first? = none from hFirst,
        show (Script.parse _).program = some program from hProgram]
      rfl

end Directive

/-- Reading a script comes to an end, whatever its text is. There is a program exactly if there is
no problem, and then a directive compiles; and otherwise it is refused for a problem that is kept,
and never without one. -/
theorem reading_comes_to_end :
    (∀ file : SourceFile, Script.ReadsThrough file) ∧ ∀ d : Directive,
      (∃ program, d.parsed.program = some program ∧ d.parsed.report.first? = none ∧
        d.compile = .ok ⟨d.unitMap, d.script, program⟩) ∨
      ∃ p, d.parsed.report.first? = some p ∧ d.compile = .error (d.scriptDiagnostic p) :=
  ⟨Script.readsThrough, Directive.compile_cases⟩

/-- A directive is refused for the first problem by position among those that are kept. Unless there
are more problems than a report keeps, these are all problems that are found. -/
theorem first_problem_reported {d : Directive} {failure : Diagnostic}
    (h : d.compile = .error failure) :
    ∃ p before after, failure = d.scriptDiagnostic p ∧ Report.IsFirst p before after ∧
      ((Script.tokens d.script).2.kept ++ (Script.grammarReport d.script).kept).take maxProblems =
        before ++ p :: after ∧
      ((Script.tokens d.script).2.total + (Script.grammarReport d.script).total ≤ maxProblems →
        (Script.tokens d.script).2.kept.length = (Script.tokens d.script).2.total ∧
        (Script.grammarReport d.script).kept.length = (Script.grammarReport d.script).total ∧
        (Script.tokens d.script).2.kept ++ (Script.grammarReport d.script).kept =
          before ++ p :: after) := by
  rcases d.compile_cases with ⟨program, -, -, hOk⟩ | ⟨p, hFirst, hError⟩
  · rw [hOk] at h
    cases h
  · rw [hError] at h
    cases h
    have hSome : d.parsed.report.kept ≠ [] := by
      intro hNone
      have hMem := (Report.first?_spec d.parsed.report).2 p hFirst
      rw [hNone] at hMem
      cases hMem
    obtain ⟨p', before, after, hFirst', hKept, hIsFirst⟩ := Report.exists_first hSome
    obtain rfl : p = p' := Option.some.inj (hFirst.symm.trans hFirst')
    have hTake := d.kept_parsed.symm.trans hKept
    refine ⟨p, before, after, rfl, hIsFirst, hTake, fun hRoom => ?_⟩
    have hFaults := (Script.counted_tokens d.script).length_kept
      (Nat.le_trans (Nat.le_add_right _ _) hRoom)
    have hProblems := (Script.counted_grammarReport d.script).length_kept
      (Nat.le_trans (Nat.le_add_left _ _) hRoom)
    rw [List.take_of_length_le (by rwa [List.length_append, hFaults, hProblems])] at hTake
    exact ⟨hFaults, hProblems, hTake⟩

/-- A source with a directive that has a problem for the grammar in its first line, and a fault of
the tokens behind it. -/
def twoProblemSources : List SourceUnit := [.ofText "a.c" "/* #meta\nlet = 1\n@\n*/\n"]

/-- A source whose script has two problems: the first one in reading order is the one that stops the
run. -/
theorem first_problem_reported_twoProblemSources : ∃ ds rest d failure p before after,
    scan "out" twoProblemSources #[] = .ok ds rest ∧ d ∈ ds ∧ d.compile = .error failure ∧
      failure = d.scriptDiagnostic p ∧ Report.IsFirst p before after ∧
      (Script.tokens d.script).2.kept ++ (Script.grammarReport d.script).kept =
        before ++ p :: after := by
  have hRun : ((scan "out" twoProblemSources).run' #[]).any (fun ds => ds.any fun d =>
      d.parsed.report.first?.isSome &&
        (Script.tokens d.script).2.total + (Script.grammarReport d.script).total == 2) = true := by
    decide +kernel
  obtain ⟨ds, hds, hAny⟩ := (Option.any_eq_true _ _).1 hRun
  obtain ⟨d, hd, hBoth⟩ := List.any_eq_true.1 hAny
  simp only [Bool.and_eq_true, beq_iff_eq] at hBoth
  obtain ⟨hSome, hTotal⟩ := hBoth
  obtain ⟨first, hFirst⟩ := Option.isSome_iff_exists.1 hSome
  obtain ⟨rest, hScan⟩ := run'_eq_some_iff.1 hds
  have hError := Directive.compile_of_first? hFirst
  obtain ⟨p, before, after, hEq, hIsFirst, -, hAll⟩ := first_problem_reported hError
  have hRoom : (Script.tokens d.script).2.total + (Script.grammarReport d.script).total ≤
      maxProblems := by
    rw [hTotal]
    decide
  exact ⟨ds, rest, d, _, p, before, after, hScan, hd, hError, hEq, hIsFirst, (hAll hRoom).2.2⟩

/-- A source with a directive that has a problem for the grammar in its first line, and as many
faults behind it as a report keeps. -/
def crowdedSources : List SourceUnit :=
  [.ofText "a.c" "/* #meta\nlet = 1\n@@@@@@@@@@@@@@@@@@@@\n*/\n"]

/-- The problem in the first line, which the grammar finds, is lost behind the faults. -/
theorem earlier_problem_lost : ∃ ds rest d p q,
    scan "out" crowdedSources #[] = .ok ds rest ∧ d ∈ ds ∧
      d.compile = .error (d.scriptDiagnostic p) ∧ p.message = "Unexpected character '@'" ∧
      q ∈ (Script.grammarReport d.script).kept ∧ q.message = "expected identifier, got '='" ∧
      q.span.start.before p.span.start = true ∧
      d.unitMap.sourceLine p.span.start.line = 3 ∧ d.unitMap.sourceLine q.span.start.line = 2 := by
  have hRun : ((scan "out" crowdedSources).run' #[]).any (fun ds => ds.any fun d =>
      d.parsed.report.first?.any fun p => (Script.grammarReport d.script).kept.any fun q =>
        p.message == "Unexpected character '@'" && q.message == "expected identifier, got '='" &&
          q.span.start.before p.span.start && d.unitMap.sourceLine p.span.start.line == 3 &&
          d.unitMap.sourceLine q.span.start.line == 2) = true := by
    decide +kernel
  obtain ⟨ds, hds, hAny⟩ := (Option.any_eq_true _ _).1 hRun
  obtain ⟨d, hd, hReported⟩ := List.any_eq_true.1 hAny
  obtain ⟨p, hFirst, hFound⟩ := (Option.any_eq_true _ _).1 hReported
  obtain ⟨q, hq, hAll⟩ := List.any_eq_true.1 hFound
  simp only [Bool.and_eq_true, beq_iff_eq] at hAll
  obtain ⟨⟨⟨⟨hLate, hEarly⟩, hBefore⟩, hThird⟩, hSecond⟩ := hAll
  obtain ⟨rest, hScan⟩ := run'_eq_some_iff.1 hds
  exact ⟨ds, rest, d, p, q, hScan, hd, Directive.compile_of_first? hFirst, hLate, hq, hEarly,
    hBefore, hThird, hSecond⟩

end Metagen
