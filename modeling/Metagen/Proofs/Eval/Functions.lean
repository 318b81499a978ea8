import Metagen.Proofs.Eval.Arguments

/-! Builtin functions and methods keep what is guarded. They run no script, so that they only reach
what their arguments and their receiver are and lead to. -/

namespace Metagen

open Eval

namespace Guard.SafeSteps

variable {g : Guard} {s : Store}

theorem ofExcept {α : Type} {good : Store → α → Prop} {result : Except Fault α}
    (h : ∀ t a, s.Grown t → result = .ok a → good t a) :
    g.SafeSteps s (Native.ofExcept result) good := by
  cases result with
  | ok a => exact .pure fun t hGrown => h t a hGrown rfl
  | error fault => exact fail fault

theorem render (v : Value) : g.SafeSteps s (Native.render v) Plain := read_plain _

theorem cText (v : Value) : g.SafeSteps s (Native.cText v) Plain := by
  intro args hArgs m hReached
  rw [Native.cText]
  cases v.cText m with
  | ok text => exact ⟨hReached.refl, trivial, hArgs.mono hReached.grown⟩
  | error type => exact hReached.refl

theorem length (v : Value) : g.SafeSteps s (Native.length v) Plain := by
  cases v with
  | text t => exact .pure fun _ _ => trivial
  | list cell => exact read_plain _
  | record cell => exact read_plain _
  | _ => exact fail _

/-- Values that are no cells are free. -/
theorem freeValues_of_cell? {vs : List Value} (h : ∀ v ∈ vs, v.cell? = none) :
    g.FreeValues s vs := fun v hv => freeValue_of_cell?_eq_none (h v hv)

/-- A range is a new list of integers, which lead to no cell. -/
theorem range : g.SafeSteps s Native.range g.FreeValue := by
  unfold Native.range
  refine (required "start").bind fun start t _ _ => ?_
  refine (int _ start).bindPlain fun first t _ => ?_
  refine bindPlain ?_ fun bounds t _ => bindPlain ?_ fun step t _ => ?_
  · refine (optional "stop").bind fun stop t _ _ => ?_
    cases stop with
    | none => exact .pure fun _ _ => trivial
    | some v => exact (int _ v).bindPlain fun _ _ _ => .pure fun _ _ => trivial
  · refine (optional "step").bind fun step t _ _ => ?_
    cases step with
    | none => exact .pure fun _ _ => trivial
    | some v => exact int _ v
  · have hItems : g.FreeValues t (rangeFrom bounds.2 step bounds.1 #[]).toList := by
      apply freeValues_of_cell?
      intro v hv
      obtain ⟨n, rfl⟩ := (mem_rangeFrom (Array.mem_toList_iff.1 hv)).resolve_left (by simp)
      rfl
    split
    · exact (fail _).bindPlain fun _ _ hGrown => newList (hItems.mono hGrown)
    · exact newList hItems

theorem toInt (v : Value) : g.SafeSteps s (Native.toInt v) g.FreeValue := by
  unfold Native.toInt
  split
  · exact .pure fun _ _ => freeValue_of_cell?_eq_none rfl
  · exact .pure fun _ _ => freeValue_of_cell?_eq_none rfl
  · split
    · exact .pure fun _ _ => freeValue_of_cell?_eq_none rfl
    · exact fail _
  · split
    · exact .pure fun _ _ => freeValue_of_cell?_eq_none rfl
    · exact (render _).bindPlain fun _ _ _ => fail _
  · exact (render _).bindPlain fun _ _ _ => fail _

theorem toFloat (v : Value) : g.SafeSteps s (Native.toFloat v) g.FreeValue := by
  unfold Native.toFloat
  split
  · exact .pure fun _ _ => freeValue_of_cell?_eq_none rfl
  · exact .pure fun _ _ => freeValue_of_cell?_eq_none rfl
  · split
    · exact .pure fun _ _ => freeValue_of_cell?_eq_none rfl
    · exact fail _
  · exact (render _).bindPlain fun _ _ _ => fail _

/-- The extreme of some values is one of them. -/
theorem extremeFrom_mem {wanted : Ordering} {best v : Value} {others : List Value}
    (h : extremeFrom wanted best others = .ok v) : v = best ∨ v ∈ others := by
  induction others generalizing best with
  | nil => exact .inl (Except.ok.inj h).symm
  | cons first rest ih =>
      cases hOrder : compareValues first best with
      | error fault =>
          simp only [extremeFrom, hOrder] at h
          cases h
      | ok order =>
          simp only [extremeFrom, hOrder] at h
          rcases ih h with rfl | hRest
          · split
            · exact .inr List.mem_cons_self
            · exact .inl rfl
          · exact .inr (List.mem_cons_of_mem _ hRest)

/-- The least or greatest of free values is one of them. -/
theorem extremum (function : Builtin) (wanted : Ordering) :
    g.SafeSteps s (Native.extremum function wanted) g.FreeValue := by
  unfold Native.extremum
  refine SafeSteps.bind (show g.SafeSteps s _ g.FreeValues from ?_) fun candidates t _ hFree => ?_
  · refine rest.bind fun given t _ hGiven => ?_
    split
    · apply read
      intro u hGrown hKeeps
      exact hKeeps.listAt (freeValue_list.1 ((hGiven _ List.mem_cons_self).mono hGrown))
    · exact .pure fun _ hGrown => hGiven.mono hGrown
  · cases candidates with
    | nil => exact fail _
    | cons first others =>
        apply ofExcept
        intro u v hGrown hExtreme
        have hMem : v ∈ first :: others := List.mem_cons.2 (extremeFrom_mem hExtreme)
        exact (hFree v hMem).mono hGrown

theorem absolute (v : Value) : g.SafeSteps s (Native.absolute v) g.FreeValue := by
  unfold Native.absolute
  split
  · split
    · exact .pure fun _ _ => freeValue_of_cell?_eq_none rfl
    · exact fail _
  · exact .pure fun _ _ => freeValue_of_cell?_eq_none rfl
  · exact fail _

theorem join : g.SafeSteps s Native.join g.FreeValue := by
  unfold Native.join
  refine (required "items").bind fun given t _ hGiven => ?_
  refine (items _ hGiven).bind fun list t _ _ => ?_
  refine bindPlain ?_ fun separator t _ => ?_
  · refine (optional "sep").bind fun separator t _ _ => ?_
    cases separator with
    | none => exact .pure fun _ _ => trivial
    | some v => exact text _ v
  · refine (mapM_plain fun v _ t _ => render v).bindPlain fun texts t _ => ?_
    exact .pure fun _ _ => freeValue_of_cell?_eq_none rfl

/-- A record of free values is free. -/
theorem newRecord {entries : List (String × Value)} (h : g.FreeValues s (entries.map (·.2))) :
    g.SafeSteps s (Native.make (·.newRecord (.ofList entries))) g.FreeValue := by
  apply make
  intro t hGrown hKeeps
  apply hKeeps.newRecord
  intro v hv
  exact (h v (Bindings.mem_values_ofList hv)).mono hGrown

/-- By induction over the rows: each row makes a new record of free values. -/
theorem tableRows (columns : List String) (number : Nat) {rows : List Value}
    (hRows : g.FreeValues s rows) :
    g.SafeSteps s (Native.tableRows columns number rows) g.FreeValues := by
  induction rows generalizing s number with
  | nil => exact .pure fun _ _ => freeValues_nil
  | cons row rest ih =>
      obtain ⟨hRow, hRest⟩ := freeValues_cons.1 hRows
      unfold Native.tableRows
      split
      · next heq => cases heq
      · next heq =>
        cases heq
        exact ih (number + 1) hRest
      · next heq =>
        cases heq
        refine (items _ hRow).bind fun entries t hGrown hEntries => ?_
        have hRecord : ∀ u, t.Grown u → g.SafeSteps u (do
            let record ← Native.make (·.newRecord (.ofList (columns.zip entries.toList)))
            return record :: (← Native.tableRows columns (number + 1) rest)) g.FreeValues := by
          intro u hLater
          have hValues : g.FreeValues u ((columns.zip entries.toList).map (·.2)) := by
            intro v hv
            obtain ⟨⟨name, w⟩, hPair, rfl⟩ := List.mem_map.1 hv
            exact (hEntries w (List.of_mem_zip hPair).2).mono hLater
          refine (newRecord hValues).bind fun record x hNext hFree => ?_
          have hOthers := ih (number + 1) (hRest.mono (hGrown.trans (hLater.trans hNext)))
          refine hOthers.bind fun records y hLast hRecords => .pure fun z hEnd => ?_
          exact freeValues_cons.2 ⟨hFree.mono (hLast.trans hEnd), hRecords.mono hEnd⟩
        split
        · exact (fail _).bindPlain fun _ _ hLater => hRecord _ hLater
        · exact hRecord t (.refl t)

/-- A table is a new list of new records, all of them free. -/
theorem table : g.SafeSteps s Native.table g.FreeValue := by
  unfold Native.table
  refine (required "header").bind fun header t _ hHeader => ?_
  refine (items _ hHeader).bind fun names t _ _ => ?_
  refine (mapM_plain fun v _ t _ => text _ v).bindPlain fun columns t _ => ?_
  refine rest.bind fun rows t _ hRows => ?_
  refine (tableRows columns 1 hRows).bind fun records t _ hRecords => ?_
  exact newList (by simpa using hRecords)

/-- Every builtin function is safe: it changes cells it was given and returns free values. -/
theorem apply (b : Builtin) : g.SafeSteps s (Native.apply b) g.FreeValue := by
  cases b with
  | len =>
      refine (required "value").bind fun v t _ _ => (length v).bindPlain fun n t _ => ?_
      exact .pure fun _ _ => freeValue_of_cell?_eq_none rfl
  | range => exact range
  | str =>
      refine (required "value").bind fun v t _ _ => (render v).bindPlain fun n t _ => ?_
      exact .pure fun _ _ => freeValue_of_cell?_eq_none rfl
  | int => exact (required "value").bind fun v t _ _ => toInt v
  | float => exact (required "value").bind fun v t _ _ => toFloat v
  | upper =>
      refine (required "text").bind fun v t _ _ => (text _ v).bindPlain fun n t _ => ?_
      exact .pure fun _ _ => freeValue_of_cell?_eq_none rfl
  | lower =>
      refine (required "text").bind fun v t _ _ => (text _ v).bindPlain fun n t _ => ?_
      exact .pure fun _ _ => freeValue_of_cell?_eq_none rfl
  | join => exact join
  | keys =>
      refine (required "record").bind fun v t _ hv => (fields _ hv).bind fun record t _ _ => ?_
      apply newList
      apply freeValues_of_cell?
      simp [Value.cell?]
  | min => exact extremum _ _
  | max => exact extremum _ _
  | abs => exact (required "value").bind fun v t _ _ => absolute v
  | cStr =>
      refine (required "text").bind fun v t _ _ => (text _ v).bindPlain fun n t _ => ?_
      exact .pure fun _ _ => freeValue_of_cell?_eq_none rfl
  | cRepr =>
      refine (required "value").bind fun v t _ _ => (cText v).bindPlain fun n t _ => ?_
      exact .pure fun _ _ => freeValue_of_cell?_eq_none rfl
  | table => exact table
  | fail =>
      refine (optional "message").bind fun message t _ _ => ?_
      cases message with
      | none => exact fail _
      | some v => exact (render v).bindPlain fun _ _ _ => fail _
  | log =>
      refine rest.bind fun values t _ _ => ?_
      refine (mapM_plain fun v _ t _ => render v).bindPlain fun texts t _ => ?_
      refine (change fun u _ hKeeps => hKeeps.logLine _).bindPlain fun _ t _ => ?_
      exact .pure fun _ _ => freeValue_of_cell?_eq_none rfl
  | typeOf =>
      refine (required "value").bind fun v t _ _ => ?_
      exact .pure fun _ _ => freeValue_of_cell?_eq_none rfl

/-- A result is as good after left-over arguments are refused. -/
theorem finished {action : Native Value} (h : g.SafeSteps s action g.FreeValue) :
    g.SafeSteps s (do
      let result ← action
      Native.finish
      return result) g.FreeValue := by
  refine h.bind fun v t _ hv => finish.bindPlain fun _ u hGrown => ?_
  exact .pure fun _ hLater => hv.mono (hGrown.trans hLater)

theorem call (b : Builtin) : g.SafeSteps s (Native.call b) g.FreeValue := (apply b).finished

theorem freeValue_getD {items : Array Value} (h : g.FreeValues s items.toList) (i : Nat) :
    g.FreeValue s (items[i]?.getD .nil) := by
  cases hItem : items[i]? with
  | none => exact freeValue_of_cell?_eq_none rfl
  | some v => exact h v (Array.mem_toList_iff.2 (Array.mem_of_getElem? hItem))

theorem freeValues_eraseIdx {items : Array Value} (h : g.FreeValues s items.toList) (i : Nat) :
    g.FreeValues s (items.eraseIdxIfInBounds i).toList := by
  unfold Array.eraseIdxIfInBounds
  split
  · intro v hv
    rw [Array.toList_eraseIdx] at hv
    exact h v (List.mem_of_mem_eraseIdx hv)
  · exact h

/-- Methods of a free list change this list alone and return its items or new values. -/
theorem listMethod {cell : Nat} (hCell : g.Free s (.list cell)) (method : String) :
    g.SafeSteps s (Native.listMethod cell method) g.FreeValue := by
  unfold Native.listMethod
  split
  · refine (required "value").bind fun v t hGrown hv => ?_
    refine bindPlain (change fun u hLater hKeeps => ?_) fun _ _ _ => ?_
    · have hFree := hCell.mono (hGrown.trans hLater)
      apply hKeeps.modifyList hFree
      simpa using ⟨hKeeps.listAt hFree, hv.mono hLater⟩
    · exact .pure fun _ _ => freeValue_of_cell?_eq_none rfl
  · refine bindPlain ?_ fun index t hGrown => ?_
    · refine (optional "index").bind fun index t _ _ => ?_
      cases index with
      | none => exact .pure fun _ _ => trivial
      | some v => exact int _ v
    · have hList : g.SafeSteps t (Native.read (·.listAt cell))
          fun u list => g.FreeValues u list.toList :=
        read fun u hLater hKeeps => hKeeps.listAt (hCell.mono (hGrown.trans hLater))
      refine hList.bind fun list u hNext hItems => ?_
      split
      · refine bindPlain (change fun x hLater hKeeps => ?_) fun _ x hLater => ?_
        · have hFree := hCell.mono ((hGrown.trans hNext).trans hLater)
          exact hKeeps.modifyList hFree (freeValues_eraseIdx (hKeeps.listAt hFree) _)
        · exact .pure fun _ hLast => freeValue_getD (hItems.mono (hLater.trans hLast)) _
      · exact fail _
  · refine (required "items").bind fun v t hGrown hv => ?_
    refine (items _ hv).bind fun more u hNext hMore => ?_
    refine bindPlain (change fun x hLater hKeeps => ?_) fun _ _ _ => ?_
    · have hFree := hCell.mono ((hGrown.trans hNext).trans hLater)
      apply hKeeps.modifyList hFree
      simpa using ⟨hKeeps.listAt hFree, hMore.mono hLater⟩
    · exact .pure fun _ _ => freeValue_of_cell?_eq_none rfl
  · refine (required "value").bind fun v t _ _ => ?_
    exact read fun _ _ _ => freeValue_of_cell?_eq_none rfl
  · refine (required "value").bind fun v t _ _ => (read_plain _).bindPlain fun found t _ => ?_
    split
    · exact .pure fun _ _ => freeValue_of_cell?_eq_none rfl
    · exact (read_plain _).bindPlain fun _ _ _ => fail _
  · refine bindPlain (change fun t hGrown hKeeps => ?_) fun _ _ _ => ?_
    · have hFree := hCell.mono hGrown
      apply hKeeps.modifyList hFree
      intro v hv
      exact hKeeps.listAt hFree v (by simpa using hv)
    · exact .pure fun _ _ => freeValue_of_cell?_eq_none rfl
  · exact fail _

/-- Taking a text leaves all cells alone and gives a value that is none. -/
theorem textArgument (name : String) : g.SafeSteps s (Native.textArgument name) Plain := by
  intro args hArgs
  have hText : g.SafeSteps s (do
      Native.text (args.callee ++ "() argument") (← Native.required name)) Plain :=
    (required name).bind fun v t _ _ => text _ v
  exact hText args hArgs

theorem textList (parts : List String) : g.SafeSteps s (Native.textList parts) g.FreeValue := by
  apply newList
  apply freeValues_of_cell?
  simp [Value.cell?]

theorem textMethod (t method : String) :
    g.SafeSteps s (Native.textMethod t method) g.FreeValue := by
  unfold Native.textMethod
  split
  · exact .pure fun _ _ => freeValue_of_cell?_eq_none rfl
  · exact .pure fun _ _ => freeValue_of_cell?_eq_none rfl
  · exact .pure fun _ _ => freeValue_of_cell?_eq_none rfl
  · refine (optional "sep").bind fun separator u _ _ => ?_
    cases separator with
    | none => exact textList _
    | some v =>
        refine (text _ v).bindPlain fun separator u _ => ?_
        dsimp only
        split
        · exact (fail _).bindPlain fun _ _ _ => textList _
        · exact textList _
  · refine (textArgument "old").bindPlain fun _ _ _ => ?_
    refine (textArgument "new").bindPlain fun _ _ _ => ?_
    exact .pure fun _ _ => freeValue_of_cell?_eq_none rfl
  · refine (textArgument "prefix").bindPlain fun _ _ _ => ?_
    exact .pure fun _ _ => freeValue_of_cell?_eq_none rfl
  · refine (textArgument "suffix").bindPlain fun _ _ _ => ?_
    exact .pure fun _ _ => freeValue_of_cell?_eq_none rfl
  · refine (textArgument "text").bindPlain fun _ _ _ => ?_
    exact .pure fun _ _ => freeValue_of_cell?_eq_none rfl
  · exact fail _

/-- Methods of a free record return what is in its fields or new values. -/
theorem recordMethod {cell : Nat} (hCell : g.Free s (.record cell)) (method : String) :
    g.SafeSteps s (Native.recordMethod cell method) g.FreeValue := by
  unfold Native.recordMethod
  split
  · exact (read_plain _).bindPlain fun _ _ _ => textList _
  · apply make
    intro t hGrown hKeeps
    apply hKeeps.newList
    simpa using hKeeps.recordAt (hCell.mono hGrown)
  · refine (required "key").bind fun v t hGrown _ => (text _ v).bindPlain fun key u hNext => ?_
    refine (optional "default").bind fun default x hLater hDefault => ?_
    apply read
    intro y hLast hKeeps
    have hFree := hCell.mono (hGrown.trans (hNext.trans (hLater.trans hLast)))
    cases hField : (y.recordAt cell).get? key with
    | some field => exact (hKeeps.recordAt hFree).get? hField
    | none =>
        cases default with
        | none => exact freeValue_of_cell?_eq_none rfl
        | some other => exact (hDefault other rfl).mono hLast
  · refine (required "key").bind fun v t _ _ => (text _ v).bindPlain fun key u _ => ?_
    exact read fun _ _ _ => freeValue_of_cell?_eq_none rfl
  · exact fail _

/-- A builtin method of a free value is safe, whatever the value is. -/
theorem callMethod {receiver : Value} (hReceiver : g.FreeValue s receiver) (method : String) :
    g.SafeSteps s (Native.callMethod receiver method) g.FreeValue := by
  cases receiver with
  | list cell => exact (listMethod (freeValue_list.1 hReceiver) method).finished
  | text t => exact (textMethod t method).finished
  | record cell => exact (recordMethod (freeValue_record.1 hReceiver) method).finished
  | _ => exact finished (fail _)

end Guard.SafeSteps

end Metagen
