import Metagen.Proofs.Script.Accepted
import Metagen.Proofs.Script.Payloads
import Metagen.Proofs.Script.Progress
import Metagen.Proofs.Script.Scanning

/-! Reading a whole script comes to an end, with a program or with a problem. None of the bounds on
steps, on nesting and on rounds is ever reached. -/

namespace Metagen.Script

open Grammar

variable {file : SourceFile}

/-- Where the grammar starts to read the tokens of a script. -/
def start (file : SourceFile) : Reading := ⟨file, .ofTokens (tokens file).1, {}, 0⟩

/-- How deep rules may nest in a script with these tokens. -/
def nesting (file : SourceFile) : Nat := 8 * (tokens file).1.length + 8

/-- The problems that the grammar finds in a script. -/
def grammarReport (file : SourceFile) : Report := (parseTokens file (tokens file).1).report

theorem ended_start (file : SourceFile) : (start file).Ended :=
  (ended_ofTokens file (tokensStand_tokens file)).1

theorem ahead_start_le (file : SourceFile) : (start file).ahead ≤ (tokens file).1.length := by
  unfold start
  cases (tokens file).1 with
  | nil => exact Nat.le_refl _
  | cons t ts => exact Nat.le_succ _

/-- A program is read, within any bounds that the tokens allow for, and with any eye on it. -/
structure ReadsProgram (file : SourceFile) (program : Program) (r : Reading) : Prop where
  run : ∀ n, nesting file ≤ n → Grammar.program n (start file) = .ok program r
  watched : ∀ alarm junk n, nesting file ≤ n →
    programWatched alarm n ((start file).pad junk) = .ok program (r.pad junk)
  moves : (start file).MovesTo r

/-- Every file is read to some program and some reading, within any bounds that its tokens allow
for. -/
theorem exists_readsProgram (file : SourceFile) : ∃ program r, ReadsProgram file program r := by
  have hBound := ahead_start_le file
  have hAgree : ∀ alarm junk n n', nesting file ≤ n → nesting file ≤ n' →
      Agree junk 0 (start file) (Grammar.program n (start file))
        (programWatched alarm n' ((start file).pad junk)) := by
    intro alarm junk n n' h h'
    unfold nesting at h h'
    exact AdvancesAlike.program alarm (by omega) (by omega) _ (ended_start file) hBound
  obtain ⟨program, r, hRun⟩ := Finishes.program (nesting file) (start file)
  have hWatched : ∀ alarm junk n, nesting file ≤ n →
      programWatched alarm n ((start file).pad junk) = .ok program (r.pad junk) ∧
        (start file).MovesTo r := by
    intro alarm junk n h
    have hOutcome := hAgree alarm junk _ n (Nat.le_refl _) h
    rw [hRun] at hOutcome
    exact ⟨hOutcome.1, hOutcome.2.1⟩
  let alarm : EStateM.Result Unit Reading (Option Stmt) := .error () (start file)
  refine ⟨program, r, fun n h => ?_, fun alarm junk n h => (hWatched alarm junk n h).1,
    (hWatched alarm [] _ (Nat.le_refl _)).2⟩
  -- Both bounds are compared with the watched grammar, which does the same as either.
  obtain ⟨program', r', hRun'⟩ := Finishes.program n (start file)
  have hOutcome := hAgree alarm [] n (nesting file) h (Nat.le_refl _)
  rw [hRun'] at hOutcome
  have hSame := hOutcome.1.symm.trans (hWatched alarm [] _ (Nat.le_refl _)).1
  obtain ⟨hProgram, hReading⟩ := EStateM.Result.ok.inj hSame
  have hPad : ∀ r : Reading, r.pad [] = r := by simp [Reading.pad]
  rw [hPad, hPad] at hReading
  rw [hRun', hProgram, hReading]

namespace ReadsProgram

variable {program : Program} {r : Reading}

/-- What parsing tokens gives is the program that was read, unless there was a problem. -/
theorem parseTokens_eq (h : ReadsProgram file program r) : parseTokens file (tokens file).1 =
    ⟨if r.report.hasProblems then none else some program, r.report⟩ := by
  have hRun := h.run (nesting file) (Nat.le_refl _)
  unfold nesting start at hRun
  unfold parseTokens
  dsimp only
  rw [hRun]

theorem grammarReport_eq (h : ReadsProgram file program r) : grammarReport file = r.report :=
  congrArg Parsed.report h.parseTokens_eq

end ReadsProgram

theorem counted_tokens (file : SourceFile) : (tokens file).2.Counted :=
  (repeats_tokens file).2.counted

theorem counted_grammarReport (file : SourceFile) : (grammarReport file).Counted := by
  obtain ⟨program, r, h⟩ := exists_readsProgram file
  rw [h.grammarReport_eq]
  exact h.moves.counted Report.counted_empty

/-- A file with faults in its tokens has no program, and its report goes on with what the grammar
finds. -/
theorem parse_eq (file : SourceFile) : parse file =
    if (tokens file).2.hasProblems then
      ⟨none, (grammarReport file).kept.foldl .push (tokens file).2⟩
    else parseTokens file (tokens file).1 := by
  unfold parse grammarReport
  dsimp only

/-- The faults of the tokens are kept, and the problems that the grammar keeps, as far as there is
room behind them. -/
theorem kept_parse (file : SourceFile) : (parse file).report.kept =
    ((tokens file).2.kept ++ (grammarReport file).kept).take maxProblems := by
  have hFaults := (counted_tokens file).length_kept_le
  have hProblems := (counted_grammarReport file).length_kept_le
  rw [parse_eq]
  split
  next => exact Report.kept_foldl_push hFaults _
  next hNone =>
    have hTotal : (tokens file).2.total = 0 := by simpa [Report.hasProblems] using hNone
    have hEmpty : (tokens file).2.kept = [] := by
      refine List.eq_nil_of_length_eq_zero ?_
      rw [(counted_tokens file).length_kept (by omega), hTotal]
    rw [hEmpty, List.nil_append, List.take_of_length_le hProblems, grammarReport]

/-- There is a program exactly if there is no problem, of the tokens or of the grammar. -/
theorem isSome_program_parse (file : SourceFile) : (parse file).program.isSome = true ↔
    (tokens file).2.total = 0 ∧ (grammarReport file).total = 0 := by
  obtain ⟨program, r, h⟩ := exists_readsProgram file
  rw [parse_eq, h.grammarReport_eq, h.parseTokens_eq]
  by_cases hFaults : (tokens file).2.total = 0
  · rw [if_neg (by simp [Report.hasProblems, hFaults])]
    by_cases hProblems : r.report.total = 0
    · rw [if_neg (by simp [Report.hasProblems, hProblems])]
      simp [hFaults, hProblems]
    · rw [if_pos (by simpa [Report.hasProblems, Nat.pos_iff_ne_zero] using hProblems)]
      simp [hProblems]
  · rw [if_pos (by simpa [Report.hasProblems, Nat.pos_iff_ne_zero] using hFaults)]
    simp [hFaults]

/-- Reading a script comes to an end. -/
structure ReadsThrough (file : SourceFile) : Prop where
  /-- More steps do not make other tokens, -/
  steps : ∀ n, 2 * file.text.toList.length + 2 ≤ n →
    Scan.takeAll file n [] ⟨file.text.toList, .origin, [], {}⟩ = tokens file
  /-- nor do more faults in front of one token. -/
  faults : ∀ (s : Scan) n, maxProblems < n →
    s.takeCode file n = s.takeCode file (maxProblems + 1)
  /-- What the grammar reads does not depend on the bounds on nesting and on rounds. Each round of
  its loops over statements starts on a report that is not full, and reads a token or reports a
  problem. -/
  grammar : ∃ program r, parseTokens file (tokens file).1 =
      ⟨if r.report.hasProblems then none else some program, r.report⟩ ∧
    ∀ n, nesting file ≤ n → Grammar.program n (start file) = .ok program r ∧
      ∀ alarm junk, programWatched alarm n ((start file).pad junk) = .ok program (r.pad junk)
  kept : (tokens file).2.kept.length ≤ maxProblems ∧
    (grammarReport file).kept.length ≤ maxProblems ∧ (parse file).report.kept.length ≤ maxProblems
  program : (parse file).program.isSome = true ↔
    (tokens file).2.total = 0 ∧ (grammarReport file).total = 0

/-- Every source is read through: more steps change nothing, every round goes on, and problems are
capped. -/
theorem readsThrough (file : SourceFile) : ReadsThrough file where
  steps n h := by
    have hLeft : Scan.left ⟨file.text.toList, .origin, [], {}⟩ = 2 * file.text.toList.length := rfl
    exact Scan.takeAll_enough file [] (by omega) (by omega)
  faults s n h := Scan.takeCode_enough file (by omega) (by omega)
  grammar := by
    obtain ⟨program, r, h⟩ := exists_readsProgram file
    exact ⟨program, r, h.parseTokens_eq, fun n hn =>
      ⟨h.run n hn, fun alarm junk => h.watched alarm junk n hn⟩⟩
  kept := by
    refine ⟨(counted_tokens file).length_kept_le, (counted_grammarReport file).length_kept_le, ?_⟩
    rw [kept_parse]
    exact List.length_take_le _ _
  program := isSome_program_parse file

end Metagen.Script
