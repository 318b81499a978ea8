import Metagen.Proofs.Run.Beside

/-! The order of sources. If nothing that is exported has a function in it, if no receipts are
asked for and if all files can be written, a run on sources in another order ends well just when
the run on the sources does. Then the same names are recorded for values that look alike, and the
same text is written to each file. -/

namespace Metagen

namespace Effect

/-- The text that is written to a file, which is given by the parts of its path. -/
def textFor? (parts : List String) : Effect → Option String
  | write path text => if Path.parts path = parts then some text else none
  | _ => none

/-- The text that is written to a file last. -/
def lastText? (parts : List String) (effects : List Effect) : Option String :=
  effects.reverse.findSome? (textFor? parts)

variable {parts : List String} {text : String} {effects : List Effect}

/-- An effect writes this text to the file exactly if it is a write of that text to a path with
these parts. -/
theorem textFor?_eq_some_iff (e : Effect) : textFor? parts e = some text ↔
    ∃ path, e = write path text ∧ Path.parts path = parts := by
  cases e with
  | write path other =>
      rw [textFor?, Option.ite_none_right_eq_some]
      constructor
      · rintro ⟨hParts, ⟨⟩⟩
        exact ⟨path, rfl, hParts⟩
      · rintro ⟨_, ⟨⟩, hParts⟩
        exact ⟨hParts, rfl⟩
  | _ => simp [textFor?]

/-- The text written last is that of the newest write to the file, or else of the last one
before. -/
theorem lastText?_concat (parts : List String) (effects : List Effect) (e : Effect) :
    lastText? parts (effects ++ [e]) = (textFor? parts e).or (lastText? parts effects) := by
  rw [lastText?, List.reverse_append, List.reverse_singleton, List.singleton_append,
    List.findSome?_cons, lastText?]
  cases textFor? parts e <;> rfl

/-- What is written to a file that is written once. -/
theorem lastText?_eq_some_iff (hOnce : (effects.filterMap fileParts?).Nodup) :
    lastText? parts effects = some text ↔
      ∃ path, write path text ∈ effects ∧ Path.parts path = parts := by
  induction effects using List.reverseRecOn with
  | nil => simp [lastText?]
  | append_singleton effects e ih =>
      rw [List.filterMap_append, List.nodup_append] at hOnce
      obtain ⟨hBefore, -, hApart⟩ := hOnce
      rw [lastText?_concat]
      cases hText : textFor? parts e with
      | none =>
          rw [Option.none_or, ih hBefore]
          refine exists_congr fun path => ?_
          constructor
          · rintro ⟨hMem, hParts⟩
            exact ⟨List.mem_append_left _ hMem, hParts⟩
          · rintro ⟨hMem, hParts⟩
            refine ⟨(List.mem_append.1 hMem).resolve_right fun hLast => ?_, hParts⟩
            obtain rfl := List.mem_singleton.1 hLast
            rw [(textFor?_eq_some_iff _).2 ⟨path, rfl, hParts⟩] at hText
            cases hText
      | some found =>
          obtain ⟨path, rfl, rfl⟩ := (textFor?_eq_some_iff e).1 hText
          rw [Option.some_or]
          constructor
          · rintro ⟨⟩
            exact ⟨path, by simp, rfl⟩
          · rintro ⟨other, hMem, hParts⟩
            rcases List.mem_append.1 hMem with hOld | hLast
            · -- It would be written twice.
              have hTwice : Path.parts other ∈ effects.filterMap fileParts? :=
                List.mem_filterMap.2 ⟨_, hOld, rfl⟩
              exact (hApart _ hTwice (Path.parts path) (by simp [fileParts?]) hParts).elim
            · cases List.mem_singleton.1 hLast
              rfl

/-- Writing a file is the one write among the effects that this has. -/
theorem write_mem_output_iff (path text path' text' : String) :
    write path' text' ∈ output path text ↔ path' = path ∧ text' = text := by
  unfold output
  cases Path.parent? path <;> simp

end Effect

/-- A directive writes exactly the file that it has generated. -/
theorem FinishedDirective.write_mem_effects_iff (c : FinishedDirective) (path text : String) :
    .write path text ∈ c.effects ↔ c.generated = some ⟨path, text⟩ := by
  unfold effects
  cases c.generated with
  | none => simp
  | some file =>
      obtain ⟨path', text'⟩ := file
      simp [Effect.write_mem_output_iff, @eq_comm _ path', @eq_comm _ text']

namespace Run

variable {fuel : Nat} {plan plan' : Plan} {completed completed' : List FinishedDirective}
  {st st' : RunState}

theorem StopsAt.exists_item {i : Nat} {d : Directive} {failure : Failure}
    (h : StopsAt fuel plan i st d failure) : ∃ unit, plan.item? i = some (d, unit) := by
  cases h with
  | failed item => exact ⟨_, item⟩
  | outOfFuel item => exact ⟨_, item⟩
  | unbound item => exact ⟨_, item⟩

section

variable (hSound : plan.Sound) (hSound' : plan'.Sound) (hWithin' : plan'.Within plan)
  (h : AllRunToEnd fuel plan { emitter := { receipt := false } } plan.order completed st)

include hSound hSound' hWithin' h

/-- If all directives of one run come to their ends, no directive of the other run stops. -/
theorem not_stopsAt_of_allRunToEnd
    (hData : ExportsData fuel plan false ∨ ExportsData fuel plan' false) {done more : List Nat}
    {j : Nat} (hOrder : plan'.order = done ++ j :: more)
    (h' : AllRunToEnd fuel plan' { emitter := { receipt := false } } done completed' st')
    (d : Directive) (failure : Failure) : ¬ StopsAt fuel plan' j st' d failure := by
  intro hStops
  obtain ⟨r, -, -⟩ := Course.exists_of_allRunToEnd h
  obtain ⟨unit, hItem⟩ := hStops.exists_item
  obtain ⟨hBeside, -⟩ := r.beside_of_allRunToEnd hSound hSound' hWithin' hData hOrder h'
  obtain ⟨k, i, c, -, hTurn⟩ :=
    Course.exists_turn hSound hSound' hWithin' hBeside hOrder ⟨_, h'⟩ hItem
  exact hTurn.not_stopsAt failure hStops

/-- What another run of the same directives has recorded and generated, this one has as well. -/
theorem recorded_and_generated
    (hData : ExportsData fuel plan false ∨ ExportsData fuel plan' false)
    (h' : AllRunToEnd fuel plan' { emitter := { receipt := false } } plan'.order completed' st') :
    (∀ name w, st'.symbols.get? name = some w →
        ∃ v, st.symbols.get? name = some v ∧ Alike st.store v st'.store w) ∧
      ∀ c' ∈ completed', ∃ c ∈ completed, c'.generated = c.generated := by
  obtain ⟨r, rfl, rfl⟩ := Course.exists_of_allRunToEnd h
  obtain ⟨hBeside, hGenerated⟩ :=
    r.beside_of_allRunToEnd hSound hSound' hWithin' hData (List.append_nil _).symm h'
  refine ⟨fun name w hw => ?_, fun c' hc' => ?_⟩
  · obtain ⟨v, hSettled, hAlike⟩ := hBeside.recorded name w hw
    exact ⟨v, hSettled.recorded, hAlike⟩
  · obtain ⟨c, hc, -, hSame⟩ := hGenerated c' hc'
    exact ⟨c, hc, hSame⟩

end

/-- What both of two runs have recorded if each has recorded what the other has. -/
theorem rel_of_recorded
    (hLeft : ∀ name w, st'.symbols.get? name = some w →
      ∃ v, st.symbols.get? name = some v ∧ Alike st.store v st'.store w)
    (hRight : ∀ name v, st.symbols.get? name = some v →
      ∃ w, st'.symbols.get? name = some w ∧ Alike st'.store w st.store v) (name : String) :
    Option.Rel (fun v w => Alike st.store v st'.store w) (st.symbols.get? name)
      (st'.symbols.get? name) := by
  cases hw : st'.symbols.get? name with
  | some w =>
      obtain ⟨v, hv, hAlike⟩ := hLeft name w hw
      rw [hv]
      exact .some hAlike
  | none =>
      cases hv : st.symbols.get? name with
      | none => exact .none
      | some v =>
          obtain ⟨w, hw', -⟩ := hRight name v hv
          rw [hw] at hw'
          cases hw'

/-- If all that is generated is generated by other directives too, they write all that is
written. -/
theorem write_mem_flatMap_effects {path text : String}
    (hSame : ∀ c ∈ completed, ∃ c' ∈ completed', c.generated = c'.generated)
    (h : .write path text ∈ completed.flatMap (·.effects)) :
    .write path text ∈ completed'.flatMap (·.effects) := by
  obtain ⟨c, hc, hWrite⟩ := List.mem_flatMap.1 h
  obtain ⟨c', hc', hGenerated⟩ := hSame c hc
  rw [FinishedDirective.write_mem_effects_iff, hGenerated] at hWrite
  exact List.mem_flatMap.2 ⟨c', hc', (c'.write_mem_effects_iff path text).2 hWrite⟩

/-- Runs that have generated the same have written the same to every file. -/
theorem lastText?_eq {files files' : List Effect}
    (hFiles : (files.filterMap Effect.fileParts?).Nodup)
    (hFiles' : (files'.filterMap Effect.fileParts?).Nodup)
    (hSame : ∀ path text, .write path text ∈ files ↔ .write path text ∈ files')
    (parts : List String) : Effect.lastText? parts files = Effect.lastText? parts files' := by
  refine Option.ext fun text => ?_
  rw [Effect.lastText?_eq_some_iff hFiles, Effect.lastText?_eq_some_iff hFiles']
  exact exists_congr fun path => and_congr_left fun _ => hSame path text

end Run

/-- The order of the sources does not matter. If nothing that is exported has a function in it, no
receipts are asked for and all files can be written, the run on the sources in another order ends
well just when the run on the sources does. Then the same names are recorded, for values that look
alike, and behind the scripts, if they are shown, the same text is written to every file. -/
theorem run_of_perm {World : Type} {host : Host (StateM World)} (hWritable : host.WritesFiles)
    (fuel : Nat) {options : Options} (hReceipt : options.receipt = false)
    {sources sources' : List SourceUnit} (hSources : sources.Perm sources')
    (hData : ∀ plan warnings, Plan.ofSources options.outputDir sources #[] = .ok plan warnings →
      Run.ExportsData fuel plan options.receipt) (w w' : World) :
    ∃ outcome outcome' v v' effects effects',
      Does (Run.runSources host.watched fuel options sources) w outcome v effects ∧
      Does (Run.runSources host.watched fuel options sources') w' outcome' v' effects' ∧
      ((∃ report, outcome = .ok report) ↔ ∃ report', outcome' = .ok report') ∧
      ∀ report report', outcome = .ok report → outcome' = .ok report' →
        (∀ name, Option.Rel (fun x y => Alike report.final.store x report'.final.store y)
          (report.final.symbols.get? name) (report'.final.symbols.get? name)) ∧
        ∃ files files',
          effects = options.dumpPath.elim [] (Effect.output · report.plan.dump) ++ files ∧
          effects' = options.dumpPath.elim [] (Effect.output · report'.plan.dump) ++ files' ∧
          ∀ parts, Effect.lastText? parts files = Effect.lastText? parts files' := by
  cases hPlan : Plan.ofSources options.outputDir sources #[] with
  | error d warnings =>
      cases hPlan' : Plan.ofSources options.outputDir sources' #[] with
      | error d' warnings' =>
          obtain ⟨v, hDoes⟩ := Run.does_runSources_of_error hPlan w
          obtain ⟨v', hDoes'⟩ := Run.does_runSources_of_error hPlan' w'
          refine ⟨_, _, v, v', [], [], hDoes, hDoes', iff_of_false ?_ ?_, ?_⟩
          · rintro ⟨report, ⟨⟩⟩
          · rintro ⟨report, ⟨⟩⟩
          · rintro report report' ⟨⟩
      | ok plan' warnings' =>
          obtain ⟨plan, rest, hMade, -⟩ := Plan.exists_of_perm hSources.symm hPlan' #[]
          rw [hPlan] at hMade
          cases hMade
  | ok plan warnings =>
      obtain ⟨plan', warnings', hPlan', hWithin, hWithin'⟩ :=
        Plan.exists_of_perm hSources hPlan #[]
      have hSound := Plan.sound_of_ofSources hPlan
      have hSound' := Plan.sound_of_ofSources hPlan'
      have hExports := hData plan warnings hPlan
      obtain ⟨done, completed, st, outcome, v, rest, hAll, hDoes, hEnd⟩ :=
        Run.does_runSources hWritable hPlan w
      obtain ⟨done', completed', st', outcome', v', rest', hAll', hDoes', hEnd'⟩ :=
        Run.does_runSources hWritable hPlan' w'
      rw [hReceipt] at hExports hAll hAll'
      refine ⟨outcome, outcome', v, v', _, _, hDoes, hDoes', ?_, ?_⟩
      · constructor
        · rintro ⟨report, rfl⟩
          obtain ⟨rfl, -⟩ | ⟨_, _, _, _, _, _, hFailed, -⟩ := hEnd
          · obtain ⟨-, rfl, -⟩ | ⟨j, more, d, failure, hOrder, hStops, -⟩ := hEnd'
            · exact ⟨_, rfl⟩
            · exact (Run.not_stopsAt_of_allRunToEnd hSound hSound' hWithin' hAll (.inl hExports)
                hOrder hAll' d failure hStops).elim
          · cases hFailed
        · rintro ⟨report', rfl⟩
          obtain ⟨rfl, -⟩ | ⟨_, _, _, _, _, _, hFailed, -⟩ := hEnd'
          · obtain ⟨-, rfl, -⟩ | ⟨j, more, d, failure, hOrder, hStops, -⟩ := hEnd
            · exact ⟨_, rfl⟩
            · exact (Run.not_stopsAt_of_allRunToEnd hSound' hSound hWithin hAll' (.inr hExports)
                hOrder hAll d failure hStops).elim
          · cases hFailed
      · rintro report report' rfl rfl
        obtain ⟨rfl, hOutcome, rfl⟩ | ⟨_, _, _, _, _, _, hFailed, -⟩ := hEnd
        · obtain ⟨rfl, hOutcome', rfl⟩ | ⟨_, _, _, _, _, _, hFailed, -⟩ := hEnd'
          · obtain rfl := Except.ok.inj hOutcome
            obtain rfl := Except.ok.inj hOutcome'
            obtain ⟨hRecorded, hGenerated⟩ :=
              Run.recorded_and_generated hSound' hSound hWithin hAll' (.inr hExports) hAll
            obtain ⟨hRecorded', hGenerated'⟩ :=
              Run.recorded_and_generated hSound hSound' hWithin' hAll (.inl hExports) hAll'
            refine ⟨Run.rel_of_recorded hRecorded' hRecorded, _, _, rfl, rfl, fun parts => ?_⟩
            rw [List.append_nil, List.append_nil]
            refine Run.lastText?_eq
              (hAll.nodup_fileParts hSound (List.append_nil _).symm
                (not_sharesOutput_of_ofSources hPlan))
              (hAll'.nodup_fileParts hSound' (List.append_nil _).symm
                (not_sharesOutput_of_ofSources hPlan')) (fun path text => ⟨?_, ?_⟩) parts
            · exact Run.write_mem_flatMap_effects hGenerated
            · exact Run.write_mem_flatMap_effects hGenerated'
          · cases hFailed
        · cases hFailed

/-- A source that imports a list, and the one that defines it. -/
def importingSources : List SourceUnit :=
  [.ofText "a.c" "#include \"gen/a.h\"\n/* #meta import L\n#meta export N\nlet N = [L, 2]\n*/\n",
    .ofText "b.c" "/* #meta export L\nlet L = [1]\n*/\n"]

/-- Two sources, one of which imports data from the other, run in both orders and leave the same
text in each file. -/
theorem run_of_perm_importingSources : Host.idle.WritesFiles ∧
    importingSources.Perm importingSources.reverse ∧
    (∀ plan warnings, Plan.ofSources "out" importingSources #[] = .ok plan warnings →
      Run.ExportsData 30 plan false) ∧
    ∃ outcome outcome' v v' effects effects',
      Does (Run.runSources Host.idle.watched 30 { outputDir := "out", receipt := false }
        importingSources) () outcome v effects ∧
      Does (Run.runSources Host.idle.watched 30 { outputDir := "out", receipt := false }
        importingSources.reverse) () outcome' v' effects' ∧
      ((∃ report, outcome = .ok report) ↔ ∃ report', outcome' = .ok report') ∧
      ∀ report report', outcome = .ok report → outcome' = .ok report' →
        (∀ name, Option.Rel (fun x y => Alike report.final.store x report'.final.store y)
          (report.final.symbols.get? name) (report'.final.symbols.get? name)) ∧
        ∃ files files', effects = [] ++ files ∧ effects' = [] ++ files' ∧
          ∀ parts, Effect.lastText? parts files = Effect.lastText? parts files' := by
  have hWritable : Host.idle.WritesFiles := ⟨fun _ _ _ => rfl, fun _ _ => rfl⟩
  have hPerm : importingSources.Perm importingSources.reverse := importingSources.reverse_perm.symm
  have hPasses : Plan.passes importingSources (fun plan => plan.order.inits.all fun done =>
      endsWith (Run.stateAfter Host.idle 30 plan false done) fun st =>
        st.store.functions.size == 0) = true := by
    decide +kernel
  have hData : ∀ plan warnings, Plan.ofSources "out" importingSources #[] = .ok plan warnings →
      Run.ExportsData 30 plan false := by
    intro plan warnings hPlan
    obtain ⟨plan, _, hPlan', hChecks⟩ := Plan.exists_of_passes hPasses
    obtain ⟨rfl, -⟩ := EStateM.Result.ok.inj (hPlan'.symm.trans hPlan)
    refine Run.exportsData_of_no_functions (Plan.sound_of_ofSources hPlan) ?_
    intro done more st hOrder hAfter
    have hCheck := List.all_eq_true.1 hChecks done ((List.mem_inits _ _).2 ⟨more, hOrder.symm⟩)
    obtain ⟨_, hRun, hNone⟩ := endsWell_of_endsWith hCheck
    obtain ⟨entries, rfl⟩ := hAfter.eq_of_endsWell hRun
    exact eq_of_beq hNone
  exact ⟨hWritable, hPerm, hData,
    @run_of_perm Unit Host.idle hWritable 30 { outputDir := "out", receipt := false } rfl
      importingSources importingSources.reverse hPerm hData () ()⟩

end Metagen
