import Metagen.Proofs.Directive.HeaderLine
import Metagen.Proofs.Source.Lines

/-! Where problems of a script are in its source. Each line of a script behind its preamble is a
line of the source, and a problem is on one of these lines, or at the end of the text. -/

namespace Metagen

open Text

/-- The lines of a source hold no line feed. -/
theorem SourceFile.notMem_lines {file : SourceFile} {text : String} (h : text ∈ file.lines) :
    '\n' ∉ text.toList := by
  obtain ⟨i, -, hLine⟩ := List.mem_filterMap.1 h
  exact notMem_of_line? hLine

theorem Header.cutComment_prefix (text : String) :
    (cutComment text).1.toList <+: text.toList := by
  have hCut := upToEnd_cutComment text
  generalize (cutComment text).1 = cut at hCut ⊢
  cases hCut with
  | ended h _ => exact (List.prefix_append _ _).trans h
  | whole _ => exact List.prefix_rfl

/-- A line of a script is part of its line in the source. -/
theorem ScanMode.scriptLine_sublist (mode : ScanMode) (indent : Nat) (text : String) :
    (mode.scriptLine indent text).toList.Sublist text.toList := by
  cases mode with
  | script => exact List.Sublist.refl _
  | host =>
      exact (shiftLeft_sublist indent (Header.cutComment text).1).trans
        (Header.cutComment_prefix text).sublist

/-- No line of a body holds a line feed, since the lines of a source are what stands between its
line feeds. -/
theorem Directive.SpansLines.notMem_body {d : Directive} {mode : ScanMode} {last : Nat}
    (h : d.SpansLines mode last) {line : String} (hMem : line ∈ d.body) : '\n' ∉ line.toList := by
  obtain ⟨indent, hBody⟩ := h.body_eq
  rw [hBody] at hMem
  obtain ⟨text, hText, rfl⟩ := List.mem_map.1 hMem
  have hLine := List.mem_of_mem_take (List.mem_of_mem_drop hText)
  exact fun hBreak => SourceFile.notMem_lines hLine ((mode.scriptLine_sublist _ _).subset hBreak)

/-- A name that a header may declare can be declared global in a script. -/
theorem isGlobalName_of_nameFault? {name : String} (h : Header.nameFault? name = none) :
    Script.Scan.IsGlobalName name := (Header.nameFault?_eq_none_iff.1 h).isGlobalName

open Script (bodyPlace preambleChars)
open Script.Scan (lineChars)

theorem lineChars_append (first second : List String) :
    lineChars (first ++ second) = lineChars first ++ lineChars second := List.flatMap_append

/-- The text of a script is its lines, each with a line feed behind it. -/
theorem toList_intercalate_lines {lines : List String} (h : lines ≠ []) :
    ("\n".intercalate lines ++ "\n").toList = lineChars lines := by
  induction lines with
  | nil => exact (h rfl).elim
  | cons first others ih =>
      cases others with
      | nil =>
          rw [String.intercalate_singleton, String.toList_append]
          exact (List.append_nil _).symm
      | cons second others =>
          have hRest := ih (List.cons_ne_nil _ _)
          rw [String.toList_append] at hRest
          rw [String.intercalate_cons_cons, String.toList_append, String.toList_append,
            String.toList_append, List.append_assoc, hRest]
          rfl

/-- The script of a directive: its preamble and its lines. -/
theorem Directive.toList_scriptText (d : Directive) :
    d.scriptText.toList =
      preambleChars (' ' :: d.label.toList) d.definedNames ++ lineChars d.body := by
  have hText : d.scriptText.toList = lineChars (d.preamble ++ d.body) :=
    toList_intercalate_lines (by simp [preamble])
  have hFirst : ("# " ++ d.label).toList = '#' :: ' ' :: d.label.toList := by
    rw [String.toList_append]
    rfl
  rw [hText, lineChars_append]
  congr 1
  change ("# " ++ d.label).toList ++ ['\n'] ++ _ = _
  rw [hFirst, List.append_assoc]
  rfl

/-- The label of a directive is its path and a line number, and stays on one line if the path
does. -/
theorem Directive.notMem_label {d : Directive} (h : '\n' ∉ d.file.path.toList) :
    '\n' ∉ ' ' :: d.label.toList := by
  unfold label
  rw [String.toList_append, String.toList_append]
  simp only [List.mem_cons, List.mem_append, not_or]
  exact ⟨by decide, ⟨h, by decide⟩, notMem_digits d.headerLine⟩

/-- Each line behind the preamble of a script is a line of the directive. -/
theorem Directive.SpansLines.pieces_scriptText {d : Directive} {mode : ScanMode} {last : Nat}
    (h : d.SpansLines mode last) (hPath : '\n' ∉ d.file.path.toList)
    (hNames : ∀ name ∈ d.definedNames, Header.nameFault? name = none) :
    pieces d.scriptText = d.preamble ++ d.body ++ [""] := by
  let lines := d.preamble ++ d.body
  have hText : d.scriptText = "\n".intercalate (lines ++ [""]) := by
    rw [String.intercalate_append_of_ne_nil (by simp [lines, preamble]) (by simp)]
    simp [scriptText, lines]
  have hPreamble : ∀ line ∈ d.preamble, '\n' ∉ line.toList := by
    rintro line (_ | ⟨_, hLine⟩)
    · rw [String.toList_append]
      exact fun hMem => (List.mem_append.1 hMem).elim (by decide)
        fun hLabel => notMem_label hPath (List.mem_cons_of_mem _ hLabel)
    · obtain ⟨name, hName, rfl⟩ := List.mem_map.1 hLine
      rw [String.toList_append]
      refine fun hMem => (List.mem_append.1 hMem).elim (by decide) fun hBreak => ?_
      have hWord := (isGlobalName_of_nameFault? (hNames name hName)).word.all _ hBreak
      exact absurd hWord (by decide)
  have hClean : ∀ cs ∈ (lines ++ [""]).map String.toList, '\n' ∉ cs := by
    intro cs hcs
    obtain ⟨line, hLine, rfl⟩ := List.mem_map.1 hcs
    rcases List.mem_append.1 hLine with hLine | hLine
    · exact (List.mem_append.1 hLine).elim (hPreamble line) h.notMem_body
    · rw [List.mem_singleton.1 hLine]
      simp
  rw [hText, pieces, String.toList_intercalate]
  change (List.splitOn '\n' (['\n'].intercalate _)).map _ = _
  rw [List.splitOn_intercalate '\n' hClean (by simp), List.map_map]
  exact (List.map_congr_left fun _ _ => String.ofList_toList).trans (List.map_id _)

namespace Script

/-- Lines without line feeds, put behind one another, have as many line feeds as there are lines. -/
theorem count_lineChars {lines : List String} (h : ∀ line ∈ lines, '\n' ∉ line.toList) :
    (lineChars lines).count '\n' = lines.length := by
  induction lines with
  | nil => rfl
  | cons line lines ih =>
      have hLine := List.count_eq_zero_of_not_mem (h line List.mem_cons_self)
      rw [lineChars, List.flatMap_cons, List.count_append, List.count_append, hLine, ← lineChars,
        ih fun l hl => h l (List.mem_cons_of_mem _ hl), List.length_cons]
      simp
      omega

/-- Whole lines are passed to the first column of the line behind them. -/
theorem past_lineChars {lines : List String} (h : ∀ line ∈ lines, '\n' ∉ line.toList)
    (n : Nat) : Position.past ⟨n, 1⟩ (lineChars lines) = ⟨n + lines.length, 1⟩ := by
  induction lines generalizing n with
  | nil => rfl
  | cons line lines ih =>
      have hLine := Position.past_of_notMem (h line List.mem_cons_self) ⟨n, 1⟩
      rw [lineChars, List.flatMap_cons, Position.past_append, Position.past_append, hLine]
      refine (ih (fun l hl => h l (List.mem_cons_of_mem _ hl)) (n + 1)).trans ?_
      rw [List.length_cons]
      congr 1
      omega

namespace Place

variable {a : Place} {p : Position}

/-- A position of a text is one of a character, or the one behind all of them. -/
theorem HasPosition.hasChar_or_end (h : a.HasPosition p) :
    a.HasChar p ∨ p = a.position.past a.rest := by
  obtain ⟨rest, cs, hRest, hPosition⟩ := h
  cases rest with
  | cons c rest => exact .inl ⟨c, rest, cs, hRest, hPosition⟩
  | nil =>
      rw [List.append_nil] at hRest
      exact .inr (by rw [hRest]; exact hPosition)

theorem HasPosition.line_ge (h : a.HasPosition p) : a.position.line ≤ p.line := by
  obtain ⟨rest, cs, -, rfl⟩ := h
  simp [Position.line_past]

/-- A character of some lines is on one of them. -/
theorem HasChar.line_lt {lines : List String} (h : ∀ line ∈ lines, '\n' ∉ line.toList)
    (hRest : a.rest = lineChars lines) (hChar : a.HasChar p) :
    p.line < a.position.line + lines.length := by
  obtain ⟨c, rest, cs, hCut, hPosition⟩ := hChar
  have hText : lineChars lines = cs ++ c :: rest := hRest.symm.trans hCut
  have hLast : '\n' ∈ c :: rest := by
    rcases List.eq_nil_or_concat lines with rfl | ⟨init, line, rfl⟩
    · simp [lineChars] at hText
    · have hEnd : (c :: rest).getLast? = some '\n' := by
        rw [← List.getLast?_append_of_ne_nil cs (List.cons_ne_nil c rest), ← hText]
        simp [lineChars]
      exact List.mem_of_getLast? hEnd
  have hCount := count_lineChars h
  rw [hText, List.count_append] at hCount
  have hSome := List.count_pos_iff.2 hLast
  change p = a.position.past cs at hPosition
  rw [hPosition, Position.line_past]
  omega

end Place

end Script

namespace Directive

/-- Where the lines of the directive start in its script. -/
def bodyPlace (d : Directive) : Script.Place :=
  Script.bodyPlace d.definedNames (lineChars d.body)

def parsed (d : Directive) : Script.Parsed :=
  Script.parse (SourceFile.ofText d.label d.scriptText)

theorem length_preamble (d : Directive) : d.preamble.length = d.definedNames.length + 1 := by
  simp [preamble]

/-- The position behind the last line of the directive's script. -/
def scriptEnd (d : Directive) : Position := ⟨d.preamble.length + d.body.length + 1, 1⟩

/-- The script of a directive is read as its preamble first, whose globals are the names that the
directive defines. -/
theorem stands_parsed {d : Directive} (hPath : '\n' ∉ d.file.path.toList)
    (hNames : ∀ name ∈ d.definedNames, Header.nameFault? name = none) :
    d.parsed.Stands d.definedNames d.bodyPlace :=
  Script.stands_parse (notMem_label hPath)
    (fun name hName => isGlobalName_of_nameFault? (hNames name hName)) d.toList_scriptText

/-- A line of the script below the preamble is a line of the body, as many lines below the start of
the body. -/
theorem sourceLine_unitMap (d : Directive) (k : Nat) :
    d.unitMap.sourceLine (d.preamble.length + k + 1) = d.bodyLine + k := by
  change (if d.preamble.length < d.preamble.length + k + 1 then
    d.bodyLine + (d.preamble.length + k + 1 - d.preamble.length - 1) else d.headerLine) = _
  rw [if_pos (by omega)]
  omega

namespace SpansLines

variable {d : Directive} {mode : ScanMode} {last : Nat} {p : Position}

/-- A position on a line that holds a character is on a line of the directive. -/
theorem exists_line (h : d.SpansLines mode last) (hLine : d.bodyPlace.HasLine p) :
    ∃ k < d.body.length, p.line = d.preamble.length + k + 1 := by
  obtain ⟨hHas, q, hChar, hSame⟩ := hLine
  have hBound : q.line < d.definedNames.length + 2 + d.body.length :=
    hChar.line_lt (fun _ hMem => h.notMem_body hMem) rfl
  have hAbove : d.definedNames.length + 2 ≤ p.line := hHas.line_ge
  rw [length_preamble]
  exact ⟨p.line - (d.definedNames.length + 2), by omega, by omega⟩

/-- Any other position is behind the last line. -/
theorem exists_line_or_end (h : d.SpansLines mode last) (hHas : d.bodyPlace.HasPosition p) :
    (∃ k < d.body.length, p.line = d.preamble.length + k + 1) ∨ p = d.scriptEnd := by
  rcases hHas.hasChar_or_end with hChar | rfl
  · exact .inl (h.exists_line hChar.hasLine)
  · refine .inr ((Script.past_lineChars (fun _ hMem => h.notMem_body hMem) _).trans ?_)
    rw [scriptEnd, length_preamble]
    congr 1
    omega

/-- The lines of a directive come from lines of its source between its header and its last line. -/
theorem line_le (h : d.SpansLines mode last) {k : Nat} (hk : k < d.body.length) :
    d.headerLine < d.bodyLine + k ∧ d.bodyLine + k ≤ last := by
  have hHeader := h.header_lt
  have hLast := h.last_eq
  omega

end SpansLines

end Directive

/-- Of some candidates the last one that is chosen is one of them. -/
theorem foldl_choice {Item : Type} {choose : Option Item → Item → Option Item}
    (hChoose : ∀ best item, choose best item = some item ∨ choose best item = best ∧ best ≠ none)
    (best : Option Item) (items : List Item) :
    (items.foldl choose best = none → best = none ∧ items = []) ∧
      ∀ item ∈ items.foldl choose best, item ∈ best ∨ item ∈ items := by
  induction items generalizing best with
  | nil => exact ⟨fun h => ⟨h, rfl⟩, fun _ h => .inl h⟩
  | cons first others ih =>
      obtain ⟨hNone, hSome⟩ := ih (choose best first)
      rw [List.foldl_cons]
      constructor
      · intro h
        have hFirst := (hNone h).1
        rcases hChoose best first with hNew | ⟨hOld, hBest⟩
        · rw [hNew] at hFirst
          cases hFirst
        · exact (hBest (hOld.symm.trans hFirst)).elim
      · intro item hItem
        rcases hSome item hItem with hFirst | hOther
        · rcases hChoose best first with hNew | ⟨hOld, -⟩
          · rw [hNew] at hFirst
            exact .inr (Option.some.inj hFirst ▸ List.mem_cons_self)
          · rw [hOld] at hFirst
            exact .inl hFirst
        · exact .inr (List.mem_cons_of_mem _ hOther)

/-- There is a first problem unless none is kept, and it is one of those. -/
theorem Report.first?_spec (r : Report) :
    (r.first? = none → r.kept = []) ∧ ∀ p ∈ r.first?, p ∈ r.kept := by
  have hSpec : (r.first? = none → (none : Option Problem) = none ∧ r.kept = []) ∧
      ∀ p ∈ r.first?, p ∈ (none : Option Problem) ∨ p ∈ r.kept := by
    unfold Report.first?
    refine foldl_choice (fun best p => ?_) none r.kept
    cases best with
    | none => exact .inl rfl
    | some b =>
        by_cases hBefore : p.span.start.before b.span.start = true
        · exact .inl (if_pos hBefore)
        · exact .inr ⟨if_neg hBefore, nofun⟩
  exact ⟨fun h => (hSpec.1 h).2, fun p hp => (hSpec.2 p hp).resolve_left nofun⟩

namespace Directive

/-- A directive whose script has a problem does not compile, and it is the first problem in reading
order that is reported. -/
theorem compile_of_first? {d : Directive} {problem : Problem}
    (h : d.parsed.report.first? = some problem) :
    d.compile = .error (d.scriptDiagnostic problem) := by
  unfold compile
  dsimp only
  rw [show (Script.parse _).report.first? = some problem from h]

/-- Where a script is refused, a problem of it is reported. -/
theorem exists_problem_of_compile {d : Directive} {failure : Diagnostic}
    (hStands : d.parsed.Stands d.definedNames d.bodyPlace) (h : d.compile = .error failure) :
    ∃ problem ∈ d.parsed.report.kept, failure = d.scriptDiagnostic problem := by
  obtain ⟨hNone, hSome⟩ := Report.first?_spec d.parsed.report
  cases hFirst : d.parsed.report.first? with
  | some problem =>
      rw [compile_of_first? hFirst] at h
      cases h
      exact ⟨problem, hSome problem hFirst, rfl⟩
  | none =>
      unfold compile at h
      dsimp only at h
      rw [show (Script.parse _).report.first? = none from hFirst] at h
      cases hProgram : d.parsed.program with
      | some program =>
          rw [show (Script.parse _).program = some program from hProgram] at h
          cases h
      | none => exact (hStands.problem hProgram (hNone hFirst)).elim

end Directive

/-- Of the script of a directive, the lines behind the preamble are the lines of the directive, and
come from lines of the source in step with them. Where the script does not compile, the line that is
named is the line of the source where a problem starts, between the header and the last line of the
directive, or, for a problem at the end of the text, the line behind the last line. -/
theorem location_of_syntax_error {dir : String} {sources : List SourceUnit} {ds : List Directive}
    {warnings after : Array String} (hScan : scan dir sources warnings = .ok ds after)
    {d : Directive} (hMem : d ∈ ds) (hPath : '\n' ∉ d.file.path.toList) :
    ∃ source ∈ sources, d.file = source.file ∧ ∃ last, d.SpansLines source.mode last ∧
      (∀ k < d.body.length,
        (pieces d.scriptText)[d.preamble.length + k]? = d.body[k]? ∧
          d.unitMap.sourceLine (d.preamble.length + k + 1) = d.bodyLine + k) ∧
      ∀ failure, d.compile = .error failure → ∃ problem ∈ d.parsed.report.kept,
        failure = d.scriptDiagnostic problem ∧
          ((∃ k < d.body.length, problem.span.start.line = d.preamble.length + k + 1 ∧
              failure.places = [d.place (d.bodyLine + k) none] ∧
              d.headerLine < d.bodyLine + k ∧ d.bodyLine + k ≤ last) ∨
            problem.span.start = d.scriptEnd ∧ failure.places = [d.place (last + 1) none]) := by
  obtain ⟨source, hSource, hFile, hPlaced⟩ := scan_placedInSource hScan d hMem
  obtain ⟨last, hSpans⟩ := hPlaced.spans
  have hNames := hPlaced.named_definedNames
  have hStands := Directive.stands_parsed hPath hNames
  refine ⟨source, hSource, hFile, last, hSpans, fun k hk => ⟨?_, d.sourceLine_unitMap k⟩,
    fun failure hFailure => ?_⟩
  · rw [hSpans.pieces_scriptText hPath hNames, List.append_assoc,
      List.getElem?_append_right (Nat.le_add_right _ _), Nat.add_sub_cancel_left,
      List.getElem?_append_left hk]
  · obtain ⟨problem, hKept, rfl⟩ := Directive.exists_problem_of_compile hStands hFailure
    refine ⟨problem, hKept, rfl, ?_⟩
    change (∃ k < _, _ ∧ [d.place (d.unitMap.sourceLine problem.span.start.line) none] = _ ∧ _) ∨
      _ ∧ [d.place (d.unitMap.sourceLine problem.span.start.line) none] = _
    rcases hSpans.exists_line_or_end (hStands.report.kept problem hKept) with ⟨k, hk, hLine⟩ | hEnd
    · refine .inl ⟨k, hk, hLine, ?_, hSpans.line_le hk⟩
      rw [hLine, d.sourceLine_unitMap]
    · refine .inr ⟨hEnd, ?_⟩
      rw [hEnd, Directive.scriptEnd, d.sourceLine_unitMap, hSpans.last_eq]

/-- A source with a directive that leaves a list open, up to the end of its comment. -/
def openSources : List SourceUnit := [.ofText "a.c" "/* #meta\nlet x = [1\n*/\n"]

/-- The directive that is found there, and its problem behind the last line. -/
theorem exists_openSources : ∃ ds rest d problem,
    scan "out" openSources #[] = .ok ds rest ∧ d ∈ ds ∧ '\n' ∉ d.file.path.toList ∧
      d.compile = .error (d.scriptDiagnostic problem) ∧ d.bodyLine = 2 ∧ d.body.length = 2 ∧
      d.unitMap.sourceLine problem.span.start.line = 4 := by
  have hRun : ((scan "out" openSources).run' #[]).any (fun ds => ds.any fun d =>
      d.parsed.report.first?.any fun problem => !d.file.path.toList.contains '\n' &&
        d.bodyLine == 2 && d.body.length == 2 &&
        d.unitMap.sourceLine problem.span.start.line == 4) = true := by decide +kernel
  obtain ⟨ds, hds, hAny⟩ := (Option.any_eq_true _ _).1 hRun
  obtain ⟨d, hd, hFirst⟩ := List.any_eq_true.1 hAny
  obtain ⟨problem, hProblem, hAll⟩ := (Option.any_eq_true _ _).1 hFirst
  simp only [Bool.and_eq_true, Bool.not_eq_true', List.contains_eq_mem, decide_eq_false_iff_not,
    beq_iff_eq] at hAll
  obtain ⟨⟨⟨hPath, hBody⟩, hLength⟩, hLine⟩ := hAll
  obtain ⟨rest, hScan⟩ := run'_eq_some_iff.1 hds
  exact ⟨ds, rest, d, problem, hScan, hd, hPath, Directive.compile_of_first? hProblem, hBody,
    hLength, hLine⟩

/-- A source with an open list: the problem is reported at the end of its script, which no line of
the body holds. -/
theorem location_of_syntax_error_openSources : ∃ ds rest d failure,
    scan "out" openSources #[] = .ok ds rest ∧ d ∈ ds ∧ '\n' ∉ d.file.path.toList ∧
      d.compile = .error failure ∧ ∃ source ∈ openSources, ∃ last, d.SpansLines source.mode last ∧
        ∃ problem ∈ d.parsed.report.kept, failure = d.scriptDiagnostic problem ∧
          ((∃ k < d.body.length, problem.span.start.line = d.preamble.length + k + 1 ∧
              failure.places = [d.place (d.bodyLine + k) none] ∧
              d.headerLine < d.bodyLine + k ∧ d.bodyLine + k ≤ last) ∨
            problem.span.start = d.scriptEnd ∧ failure.places = [d.place (last + 1) none]) := by
  obtain ⟨ds, rest, d, problem, hScan, hd, hPath, hFailure, -⟩ := exists_openSources
  obtain ⟨source, hSource, -, last, hSpans, -, hPlaces⟩ := location_of_syntax_error hScan hd hPath
  exact ⟨ds, rest, d, _, hScan, hd, hPath, hFailure, source, hSource, last, hSpans,
    hPlaces _ hFailure⟩

/-- A list that is left open is reported one line below the directive. -/
theorem syntax_error_below_directive : ∃ ds rest d failure,
    scan "out" openSources #[] = .ok ds rest ∧ d ∈ ds ∧ '\n' ∉ d.file.path.toList ∧
      d.SpansLines .host 3 ∧ d.compile = .error failure ∧ failure.places = [d.place 4 none] := by
  obtain ⟨ds, rest, d, problem, hScan, hd, hPath, hFailure, hBody, hLength, hLine⟩ :=
    exists_openSources
  obtain ⟨source, hSource, -, ⟨last, hSpans⟩, -⟩ := scan_placedInSource hScan d hd
  have hMode : source.mode = .host := by
    rw [List.mem_singleton.1 hSource]
    decide
  obtain rfl : last = 3 := by
    have hLast := hSpans.last_eq
    rw [hBody, hLength] at hLast
    exact Nat.succ.inj hLast
  refine ⟨ds, rest, d, _, hScan, hd, hPath, hMode ▸ hSpans, hFailure, ?_⟩
  rw [Directive.scriptDiagnostic, hLine]

end Metagen
