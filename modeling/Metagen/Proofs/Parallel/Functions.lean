import Metagen.Proofs.Parallel.Arguments
import Metagen.Proofs.Value.Cells

/-! Builtin functions and methods, side by side: given paired arguments they give paired values. -/

namespace Metagen

open Eval

namespace Pairing

variable {g : Pairing} {v w : Value} {α β : Type}

/-- A value that is no cell stands for itself. -/
theorem values_of_plain (h : v.cell? = none) : g.Values v v := by
  cases v with
  | nil => exact .nil
  | bool b => exact .bool b
  | int n => exact .int n
  | float x => exact .float x
  | text s => exact .text s
  | builtin b => exact .builtin b
  | generator => exact .generator
  | list cell => cases h
  | record cell => cases h
  | function cell => cases h

theorem items_of_plain {xs : Array Value} (h : ∀ v ∈ xs.toList, v.cell? = none) :
    g.Items xs xs := List.forall₂_same.2 fun v hv => values_of_plain (h v hv)

namespace Items

variable {xs ys xs' ys' : Array Value}

/-- Paired items have paired items at every index, or none at the same ones. -/
theorem getElem? (h : g.Items xs ys) (i : Nat) : Option.Rel g.Values xs[i]? ys[i]? := by
  rw [← Array.getElem?_toList, ← Array.getElem?_toList]
  unfold Items at h
  generalize xs.toList = vs, ys.toList = ws at h
  induction h generalizing i with
  | nil => exact .none
  | cons hv _ ih =>
      cases i with
      | zero => exact .some hv
      | succ i => exact ih i

theorem push (h : g.Items xs ys) (hv : g.Values v w) : g.Items (xs.push v) (ys.push w) := by
  unfold Items
  rw [Array.toList_push, Array.toList_push]
  exact List.rel_append h (.cons hv .nil)

theorem append (h : g.Items xs ys) (h' : g.Items xs' ys') : g.Items (xs ++ xs') (ys ++ ys') := by
  unfold Items
  rw [Array.toList_append, Array.toList_append]
  exact List.rel_append h h'

theorem reverse (h : g.Items xs ys) : g.Items xs.reverse ys.reverse := by
  unfold Items
  rw [Array.toList_reverse, Array.toList_reverse]
  exact List.rel_reverse h

/-- Erasing the item at an index keeps items paired. -/
theorem eraseIdx (h : g.Items xs ys) (i : Nat) :
    g.Items (xs.eraseIdxIfInBounds i) (ys.eraseIdxIfInBounds i) := by
  have hErase : ∀ {vs ws : List Value}, List.Forall₂ g.Values vs ws →
      ∀ i, List.Forall₂ g.Values (vs.eraseIdx i) (ws.eraseIdx i) := by
    intro vs ws hPairs
    induction hPairs with
    | nil => exact fun _ => .nil
    | cons hv hRest ih =>
        intro i
        cases i with
        | zero => exact hRest
        | succ i => exact .cons hv (ih i)
  have hSize := h.size_eq
  unfold Array.eraseIdxIfInBounds
  split
  next hi =>
    rw [dif_pos (hSize ▸ hi)]
    unfold Items
    rw [Array.toList_eraseIdx, Array.toList_eraseIdx]
    exact hErase h i
  next hi =>
    rw [dif_neg (hSize ▸ hi)]
    exact h

/-- A test that answers alike for paired values answers alike for some item of them. -/
theorem any_eq {p p' : Value → Bool} (h : g.Items xs ys)
    (hSame : ∀ v w, g.Values v w → p v = p' w) : xs.any p = ys.any p' := by
  rw [← Array.any_toList, ← Array.any_toList]
  unfold Items at h
  generalize xs.toList = vs, ys.toList = ws at h
  induction h with
  | nil => rfl
  | cons hv _ ih => rw [List.any_cons, List.any_cons, hSame _ _ hv, ih]

/-- A test that answers alike for paired values finds the same index. -/
theorem findIdx?_eq {p p' : Value → Bool} (h : g.Items xs ys)
    (hSame : ∀ v w, g.Values v w → p v = p' w) : xs.findIdx? p = ys.findIdx? p' := by
  obtain ⟨vs⟩ := xs
  obtain ⟨ws⟩ := ys
  rw [List.findIdx?_toArray, List.findIdx?_toArray]
  change List.Forall₂ g.Values vs ws at h
  induction h with
  | nil => rfl
  | cons hv _ ih => rw [List.findIdx?_cons, List.findIdx?_cons, hSame _ _ hv, ih]

end Items

/-- Fields that are made of the same names and paired values are paired. -/
theorem entries_zip (columns : List String) {vs ws : List Value}
    (h : List.Forall₂ g.Values vs ws) :
    List.Forall₂ g.Entry (columns.zip vs) (columns.zip ws) := by
  induction h generalizing columns with
  | nil => cases columns <;> exact .nil
  | cons hv _ ih =>
      cases columns with
      | nil => exact .nil
      | cons column others => exact .cons ⟨rfl, hv⟩ (ih others)

/-- The extremes of paired values are paired. -/
theorem extremeFrom_of_pairs {wanted : Ordering} {vs ws : List Value}
    (h : List.Forall₂ g.Values vs ws) (hv : g.Values v w) {extreme : Value}
    (hExtreme : extremeFrom wanted v vs = .ok extreme) :
    ∃ extreme', extremeFrom wanted w ws = .ok extreme' ∧ g.Values extreme extreme' := by
  induction h generalizing v w with
  | nil =>
      obtain rfl := Except.ok.inj hExtreme
      exact ⟨w, rfl, hv⟩
  | @cons x y _ _ hPair _ ih =>
      have hSame := compareValues_eq hPair hv
      cases hOrder : compareValues x v with
      | error fault =>
          simp only [extremeFrom, hOrder] at hExtreme
          cases hExtreme
      | ok order =>
          simp only [extremeFrom, hOrder] at hExtreme
          simp only [extremeFrom, ← hSame, hOrder]
          refine ih ?_ hExtreme
          split
          · exact hPair
          · exact hv

namespace NativeStep

open FollowsGiven

variable {R : α → β → Prop}

/-- A result that may be a failure is paired as soon as it is wherever the first one is no
failure. -/
theorem ofExcept {result : Except Fault α} {result' : Except Fault β}
    (h : ∀ a, result = .ok a → ∃ b, result' = .ok b ∧ R a b) :
    g.NativeStep R (Native.ofExcept result) (Native.ofExcept result') := by
  cases result with
  | error fault => exact fail fault
  | ok a =>
      obtain ⟨b, rfl, hResult⟩ := h a rfl
      exact pure hResult

theorem render (h : g.Values v w) : g.NativeStep Eq (Native.render v) (Native.render w) :=
  read fun _ _ hStores => hStores.render_eq h

/-- Paired values have one C text, if they have any. -/
theorem cText (h : g.Values v w) : g.NativeStep Eq (Native.cText v) (Native.cText w) := by
  refine fun args args' hArgs => .plain fun s t hStores r s' hRun => ?_
  have hSame := hStores.cText_eq h
  unfold Native.cText at hRun
  cases hText : v.cText s with
  | error type =>
      simp only [hText] at hRun
      cases hRun
  | ok text =>
      simp only [hText] at hRun
      cases hRun
      exact ⟨(text, args'), t, by simp only [Native.cText, ← hSame, hText], hStores, rfl, hArgs⟩

/-- Paired texts, lists and records have the same length; where there is none, nothing is asked. -/
theorem length (h : g.Values v w) : g.NativeStep Eq (Native.length v) (Native.length w) := by
  cases h with
  | text t => exact pure rfl
  | list hPair => exact read fun _ _ hStores => (hStores.listAt hPair).size_eq
  | record hPair => exact read fun _ _ hStores => (hStores.recordAt hPair).size_eq
  | _ => exact fail _

/-- Ranges are made of integers, which stand for themselves, in a new list on each side. -/
theorem range : g.NativeStep g.Values Native.range Native.range := by
  unfold Native.range
  refine (required _).bind fun start start' hStart => (int _ hStart).bindSame fun first => ?_
  refine bindSame (given "stop" (fun v w hv => ?_) (pure rfl)) fun bounds => ?_
  · exact (int _ hv).bindSame fun _ => pure rfl
  refine bindSame (given "step" (fun v w hv => int _ hv) (pure rfl)) fun step => ?_
  have hMade : g.NativeStep g.Values
      (Native.make (·.newList (rangeFrom bounds.2 step bounds.1 #[])))
      (Native.make (·.newList (rangeFrom bounds.2 step bounds.1 #[]))) := by
    apply newList
    apply items_of_plain
    intro v hv
    obtain ⟨n, rfl⟩ := (mem_rangeFrom (Array.mem_toList_iff.1 hv)).resolve_left (by simp)
    rfl
  split
  · exact failing _
  · exact hMade

/-- Converting paired values gives the same integer wherever it ends well. -/
theorem toInt (h : g.Values v w) : g.NativeStep g.Values (Native.toInt v) (Native.toInt w) := by
  have hPlain : ∀ n : Int64, g.NativeStep g.Values (Pure.pure (.int n)) (Pure.pure (.int n)) :=
    fun n => pure (.int n)
  have hRefused : ∀ (fault : String → Fault) {v w : Value}, g.Values v w →
      g.NativeStep g.Values (Native.render v >>= fun t => Native.fail (fault t))
        (Native.render w >>= fun t => Native.fail (fault t)) := fun fault _ _ hv =>
    (render hv).bindSame fun _ => fail _
  cases h with
  | int n => exact hPlain n
  | bool b => exact hPlain _
  | text t =>
      unfold Native.toInt
      dsimp only
      split
      · exact hPlain _
      · exact fail _
  | float x =>
      unfold Native.toInt
      dsimp only
      split
      · exact hPlain _
      · exact hRefused _ (.float x)
  | _ => exact hRefused _ (by constructor <;> assumption)

/-- Converting paired values gives the same float wherever it ends well. -/
theorem toFloat (h : g.Values v w) :
    g.NativeStep g.Values (Native.toFloat v) (Native.toFloat w) := by
  cases h with
  | int n => exact pure (.float _)
  | float x => exact pure (.float x)
  | text t =>
      unfold Native.toFloat
      dsimp only
      split
      · exact pure (.float _)
      · exact fail _
  | _ => exact (render (by constructor <;> assumption)).bindSame fun _ => fail _

/-- The least or greatest of paired values is paired, whether they are given one by one or in a
list. -/
theorem extremum (function : Builtin) (wanted : Ordering) :
    g.NativeStep g.Values (Native.extremum function wanted) (Native.extremum function wanted) := by
  unfold Native.extremum
  refine FollowsGiven.bind (Q := List.Forall₂ g.Values) ?_ fun candidates candidates' hPairs => ?_
  · refine rest.bind fun given given' hGiven => ?_
    cases hGiven with
    | nil => exact pure .nil
    | cons hv hRest =>
        cases hRest with
        | cons hNext hMore =>
            cases hv <;> exact pure (.cons (by constructor <;> assumption) (.cons hNext hMore))
        | nil =>
            cases hv with
            | list hPair => exact read fun _ _ hStores => hStores.listAt hPair
            | _ => exact pure (.cons (by constructor <;> assumption) .nil)
  · cases hPairs with
    | nil => exact fail _
    | cons hv hRest => exact ofExcept fun _ => extremeFrom_of_pairs hRest hv

/-- Numbers stand for themselves, and so do their absolute values. -/
theorem absolute (h : g.Values v w) :
    g.NativeStep g.Values (Native.absolute v) (Native.absolute w) := by
  cases h with
  | int n =>
      rw [Native.absolute]
      split
      · exact pure (.int _)
      · exact fail _
  | float x => exact pure (.float _)
  | _ => exact fail _

/-- Joining paired values shows the same texts and puts the same separator between them. -/
theorem join : g.NativeStep g.Values Native.join Native.join := by
  unfold Native.join
  refine (required _).bind fun list list' hList => (items _ hList).bind fun xs ys hItems => ?_
  refine bindSame (given "sep" (fun v w hv => text _ hv) (pure rfl)) fun separator => ?_
  refine bindSame (mapMSame hItems fun v w hv => render hv) fun texts => ?_
  exact pure (.text _)

/-- Rows of paired values make paired records, row by row, with the same names in the same order. -/
theorem tableRows (columns : List String) (number : Nat) {rows rows' : List Value}
    (h : List.Forall₂ g.Values rows rows') :
    g.NativeStep (List.Forall₂ g.Values) (Native.tableRows columns number rows)
      (Native.tableRows columns number rows') := by
  induction h generalizing number with
  | nil => exact pure .nil
  | @cons v w others others' hv hRest ih =>
      have hRow : g.NativeStep (List.Forall₂ g.Values) (do
          let entries ← Native.items "table() row" v
          if entries.size != columns.length then
            Native.fail (.unequalRow number entries.size columns.length)
          let record ← Native.make (·.newRecord (.ofList (columns.zip entries.toList)))
          return record :: (← Native.tableRows columns (number + 1) others)) (do
          let entries ← Native.items "table() row" w
          if entries.size != columns.length then
            Native.fail (.unequalRow number entries.size columns.length)
          let record ← Native.make (·.newRecord (.ofList (columns.zip entries.toList)))
          return record :: (← Native.tableRows columns (number + 1) others')) := by
        refine (items _ hv).bind fun entries entries' hEntries => ?_
        have hRecord : g.NativeStep (List.Forall₂ g.Values) (do
            let record ← Native.make (·.newRecord (.ofList (columns.zip entries.toList)))
            return record :: (← Native.tableRows columns (number + 1) others)) (do
            let record ← Native.make (·.newRecord (.ofList (columns.zip entries'.toList)))
            return record :: (← Native.tableRows columns (number + 1) others')) := by
          have hFields := fields_ofList (entries_zip columns hEntries)
          refine (newRecord hFields).bind fun record record' hPair => ?_
          exact (ih (number + 1)).bind fun _ _ hPairs => pure (.cons hPair hPairs)
        rw [hEntries.size_eq]
        dsimp only
        split
        · exact failing _
        · exact hRecord
      cases hv with
      | nil => exact ih (number + 1)
      | _ => exact hRow

/-- A table is a new list of new records on both sides, and all of them are paired. -/
theorem table : g.NativeStep g.Values Native.table Native.table := by
  unfold Native.table
  refine (required _).bind fun header header' hHeader => ?_
  refine (items _ hHeader).bind fun names names' hNames => ?_
  refine bindSame (mapMSame hNames fun v w hv => text _ hv) fun columns => ?_
  refine rest.bind fun rows rows' hRows => ?_
  refine (tableRows columns 1 hRows).bind fun records records' hRecords => newList ?_
  exact hRecords

/-- Every builtin function gives paired values for paired arguments; the cases are the functions one
by one. -/
theorem apply (b : Builtin) : g.NativeStep g.Values (Native.apply b) (Native.apply b) := by
  cases b with
  | len => exact (required _).bind fun _ _ hv => (length hv).bindSame fun _ => pure (.int _)
  | range => exact range
  | str => exact (required _).bind fun _ _ hv => (render hv).bindSame fun _ => pure (.text _)
  | int => exact (required _).bind fun _ _ hv => toInt hv
  | float => exact (required _).bind fun _ _ hv => toFloat hv
  | upper => exact (required _).bind fun _ _ hv => (text _ hv).bindSame fun _ => pure (.text _)
  | lower => exact (required _).bind fun _ _ hv => (text _ hv).bindSame fun _ => pure (.text _)
  | join => exact join
  | keys =>
      refine (required _).bind fun _ _ hv => (fields _ hv).bind fun record record' hFields => ?_
      rw [hFields.names_eq]
      apply newList
      apply items_of_plain
      simp [Value.cell?]
  | min => exact extremum _ _
  | max => exact extremum _ _
  | abs => exact (required _).bind fun _ _ hv => absolute hv
  | cStr => exact (required _).bind fun _ _ hv => (text _ hv).bindSame fun _ => pure (.text _)
  | cRepr => exact (required _).bind fun _ _ hv => (cText hv).bindSame fun _ => pure (.text _)
  | table => exact table
  | fail => exact given "message" (fun _ _ hv => (render hv).bindSame fun _ => fail _) (fail _)
  | log =>
      refine rest.bind fun values values' hValues => ?_
      refine bindSame (mapMSame hValues fun _ _ hv => render hv) fun texts => ?_
      exact changing (fun _ _ hStores => hStores.logLine _ _) .nil
  | typeOf =>
      refine (required _).bind fun _ _ hv => ?_
      rw [hv.typeName_eq]
      exact pure (.text _)

/-- Refusing what is left over may come behind any step that gives paired values. -/
theorem finished {first second : Native Value} (h : g.NativeStep g.Values first second) :
    g.NativeStep g.Values (do
      let result ← first
      Native.finish
      return result) (do
      let result ← second
      Native.finish
      return result) := h.bind fun _ _ hv => finish.bindSame fun _ => pure hv

theorem call (b : Builtin) : g.NativeStep g.Values (Native.call b) (Native.call b) :=
  (apply b).finished

/-- Methods of paired lists change both of them in the same way and give paired values. -/
theorem listMethod {i j : Nat} (h : g.lists.pairs i j) (method : String) :
    g.NativeStep g.Values (Native.listMethod i method) (Native.listMethod j method) := by
  have hRead : g.NativeStep g.Items (Native.read (·.listAt i)) (Native.read (·.listAt j)) :=
    read fun _ _ hStores => hStores.listAt h
  unfold Native.listMethod
  split
  · refine (required _).bind fun v w hv => ?_
    exact changing (fun _ _ hStores => hStores.modifyList h fun _ _ hItems => hItems.push hv) .nil
  · refine bindSame (given "index" (fun v w hv => int _ hv) (pure rfl)) fun index => ?_
    refine hRead.bind fun list list' hItems => ?_
    rw [hItems.size_eq]
    split
    · refine changing (fun _ _ hStores => ?_) ?_
      · exact hStores.modifyList h fun _ _ hItems => hItems.eraseIdx _
      · rcases rel_cases (hItems.getElem? _) with ⟨hx, hy⟩ | ⟨v, w, hx, hy, hv⟩
        · rw [hx, hy]
          exact .nil
        · rw [hx, hy]
          exact hv
    · exact fail _
  · refine (required _).bind fun v w hv => (items _ hv).bind fun more more' hMore => ?_
    exact changing (fun _ _ hStores => hStores.modifyList h fun _ _ hItems => hItems.append hMore)
      .nil
  · refine (required _).bind fun v w hv => read fun s t hStores => ?_
    rw [(hStores.listAt h).any_eq fun x y hx => hStores.same_eq hx hv]
    exact .bool _
  · refine (required _).bind fun v w hv => bindSame (read fun s t hStores => ?_) fun found => ?_
    · exact (hStores.listAt h).findIdx?_eq fun x y hx => hStores.same_eq hx hv
    · split
      · exact pure (.int _)
      · exact bindSame (read fun s t hStores => hStores.renderNested_eq hv) fun _ => fail _
  · exact changing (fun _ _ hStores => hStores.modifyList h fun _ _ hItems => hItems.reverse) .nil
  · exact fail _

/-- The text that a method is given is the same on both sides, whatever the method is called in
messages. -/
theorem textArgument (name : String) :
    g.NativeStep Eq (Native.textArgument name) (Native.textArgument name) := by
  have hText : ∀ callee callee' : String, g.NativeStep Eq
      (do Native.text (callee ++ "() argument") (← Native.required name))
      (do Native.text (callee' ++ "() argument") (← Native.required name)) := fun _ _ =>
    (required name).bind fun v w hv => by
      cases hv with
      | text t => exact pure rfl
      | _ => exact fail _
  intro args args' hArgs
  exact hText args.callee args'.callee args args' hArgs

theorem textList (parts : List String) :
    g.NativeStep g.Values (Native.textList parts) (Native.textList parts) := by
  apply newList
  apply items_of_plain
  simp [Value.cell?]

/-- Methods of a text depend on the text and the arguments alone. -/
theorem textMethod (t method : String) :
    g.NativeStep g.Values (Native.textMethod t method) (Native.textMethod t method) := by
  unfold Native.textMethod
  split
  · exact pure (.text _)
  · exact pure (.text _)
  · exact pure (.text _)
  · refine given "sep" (fun v w hv => ?_) (textList _)
    refine (text _ hv).bindSame fun separator => ?_
    dsimp only
    split
    · exact failing _
    · exact textList _
  · exact (textArgument _).bindSame fun _ => (textArgument _).bindSame fun _ => pure (.text _)
  · exact (textArgument _).bindSame fun _ => pure (.bool _)
  · exact (textArgument _).bindSame fun _ => pure (.bool _)
  · exact (textArgument _).bindSame fun _ => pure (.bool _)
  · exact fail _

/-- Methods of paired records read the same names and paired values. -/
theorem recordMethod {i j : Nat} (h : g.records.pairs i j) (method : String) :
    g.NativeStep g.Values (Native.recordMethod i method) (Native.recordMethod j method) := by
  unfold Native.recordMethod
  split
  · exact bindSame (read fun _ _ hStores => (hStores.recordAt h).names_eq) fun _ => textList _
  · exact make fun _ _ hStores => hStores.newList (hStores.recordAt h).values
  · refine (required _).bind fun v w hv => (text _ hv).bindSame fun key => ?_
    refine (optional _).bind fun default default' hDefault => read fun s t hStores => ?_
    rcases rel_cases ((hStores.recordAt h).bound key) with ⟨hx, hy⟩ | ⟨x, y, hx, hy, hField⟩
    · rw [hx, hy]
      cases hDefault with
      | none => exact .nil
      | some hOther => exact hOther
    · rw [hx, hy]
      exact hField
  · refine (required _).bind fun v w hv => (text _ hv).bindSame fun key => ?_
    refine read fun s t hStores => ?_
    rw [(hStores.recordAt h).bound.contains_eq]
    exact .bool _
  · exact fail _

/-- A builtin method is called on paired values of the same type, and gives paired values. -/
theorem callMethod (h : g.Values v w) (method : String) :
    g.NativeStep g.Values (Native.callMethod v method) (Native.callMethod w method) := by
  cases h with
  | list hPair => exact (listMethod hPair method).finished
  | text t => exact (textMethod t method).finished
  | record hPair => exact (recordMethod hPair method).finished
  | _ => exact finished (fail _)

end NativeStep

end Pairing

end Metagen
