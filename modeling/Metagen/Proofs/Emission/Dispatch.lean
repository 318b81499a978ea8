import Metagen.Proofs.Emission.Ownership

/-! Calls of overloaded macros. The dispatcher in the file of a directive turns a call into one of
the overload that its key arguments select, and overloads are defined so that they can be called in
this way. -/

namespace Metagen.Emission

open Text Emitter Preprocessing

section

variable {name : String} {params : Option (List String)}

/-- A signature of identifiers stays on one line. -/
theorem newline_notMem_signature (hName : isIdentifier name = true)
    (hParams : ∀ ps ∈ params, ∀ p ∈ ps, isIdentifier p = true) :
    '\n' ∉ (signature name params).toList := by
  cases params with
  | none => exact notMem_of_isIdentifier hName rfl
  | some ps =>
      have hInside : '\n' ∉ (", ".intercalate ps).toList :=
        notMem_intercalate (by decide) fun p hp => notMem_of_isIdentifier (hParams ps rfl p hp) rfl
      have hStart : '\n' ∉ name.toList := notMem_of_isIdentifier hName rfl
      have hText : (signature name (some ps)).toList =
          name.toList ++ '(' :: ((", ".intercalate ps).toList ++ [')']) := by simp [signature]
      rw [hText]
      simp only [List.mem_append, List.mem_cons, hInside, hStart]
      decide

/-- A signature ends in a character that is not blank, a name or a closing parenthesis. -/
theorem exists_getLast?_signature (hName : isIdentifier name = true)
    (params : Option (List String)) :
    ∃ last, (signature name params).toList.getLast? = some last ∧ isBlank last = false := by
  cases params with
  | none =>
      obtain ⟨hNe, hChars⟩ := isNamePart_iff.1 (isNamePart_of_isIdentifier hName)
      exact ⟨name.toList.getLast hNe, List.getLast?_eq_some_getLast hNe,
        isBlank_of_isIdentChar (hChars _ (List.getLast_mem hNe))⟩
  | some ps =>
      have hText : (signature name (some ps)).toList =
          (name ++ "(" ++ ", ".intercalate ps).toList ++ [')'] := by simp [signature]
      exact ⟨')', by rw [hText, List.getLast?_concat], by decide⟩

/-- The line of a definition has its signature right behind the keyword. -/
theorem fragmentLines_definition (hName : isIdentifier name = true)
    (hParams : ∀ ps ∈ params, ∀ p ∈ ps, isIdentifier p = true) {behind : String}
    (hSingle : '\n' ∉ behind.toList) (hBehind : ∀ c ∈ behind.toList.head?, c = ' ') :
    ∃ line tail, fragmentLines ("#define " ++ signature name params ++ behind) = [line] ∧
      (∀ c ∈ tail.head?, c = ' ') ∧
        line.toList = "#define ".toList ++ ((signature name params).toList ++ tail) := by
  obtain ⟨last, hLast, hSolid⟩ := exists_getLast?_signature hName params
  have hText : ("#define " ++ signature name params ++ behind).toList =
      "#define ".toList ++ ((signature name params).toList ++ behind.toList) := by simp
  have hNoBreak : '\n' ∉ ("#define " ++ signature name params ++ behind).toList := by
    rw [hText]
    simp only [List.mem_append, hSingle, newline_notMem_signature hName hParams, or_false]
    decide
  have hLines := fragmentLines_of_single (c := '#') (by rw [hText]; rfl) (by decide) hNoBreak
  refine ⟨_, dropTrailing isBlank behind.toList, hLines, ?_, ?_⟩
  · intro c hc
    obtain ⟨dropped, hDropped⟩ : dropTrailing isBlank behind.toList <+: behind.toList :=
      List.rdropWhile_prefix isBlank _
    apply hBehind
    rw [← hDropped, List.head?_append, hc]
    rfl
  · rw [trimEnd, String.toList_ofList, hText, ← List.append_assoc, dropTrailing_append _ hSolid,
      List.append_assoc]
    rw [List.getLast?_append, hLast]
    rfl

/-- A definition is a scope with its signature for the header, or one line. -/
theorem definitionLayout_cases (name : String) (params : Option (List String)) (expansion : String)
    (doWhile : Bool) :
    (∃ inner, definitionLayout name params expansion doWhile =
      .scope (.headed ("#define " ++ signature name params)) inner) ∨
    ∃ behind : String, '\n' ∉ behind.toList ∧ behind.toList.head? = some ' ' ∧
      definitionLayout name params expansion doWhile =
        .fragment ("#define " ++ signature name params ++ behind) := by
  unfold definitionLayout
  dsimp only
  split
  · exact .inl ⟨_, rfl⟩
  next hSingle =>
    have hWritten : '\n' ∉ (dedent { literal := true } expansion).toList := by
      simpa using hSingle
    right
    split
    · refine ⟨" do \x7b " ++ dedent { literal := true } expansion ++ " \x7d while (false)",
        ?_, ?_, ?_⟩
      · simp [hWritten]
      · simp
      · simp only [signature, String.append_assoc]
    · refine ⟨" " ++ dedent { literal := true } expansion, ?_, ?_, ?_⟩
      · simp [hWritten]
      · simp
      · simp only [signature, String.append_assoc]

/-- A scope starts with its header. -/
theorem lines_scope_headed (header : String) (inner : Layout) (continued : Bool) (indent : Nat) :
    ∃ continued' rest, (Layout.scope (.headed header) inner).lines continued indent =
      Line.fragment continued' indent header ++ rest := by
  rw [Layout.lines, Scope.entering, List.append_assoc]
  exact ⟨_, _, rfl⟩

/-- What is written for a definition starts with the line of its signature. -/
theorem lines_definitionLayout (hName : isIdentifier name = true)
    (hParams : ∀ ps ∈ params, ∀ p ∈ ps, isIdentifier p = true) (expansion : String)
    (doWhile continued : Bool) (indent : Nat) : ∃ first more tail,
      (definitionLayout name params expansion doWhile).lines continued indent = first :: more ∧
        (∀ c ∈ tail.head?, c = ' ') ∧
          first.text.toList = "#define ".toList ++ ((signature name params).toList ++ tail) := by
  rcases definitionLayout_cases name params expansion doWhile with
    ⟨inner, hLayout⟩ | ⟨behind, hSingle, hBlank, hLayout⟩
  · have hNothing : '\n' ∉ "".toList := by simp
    obtain ⟨line, tail, hLines, hTail, hLine⟩ := fragmentLines_definition hName hParams hNothing
      (by simp)
    rw [String.append_empty] at hLines
    obtain ⟨continued', rest, hHead⟩ :=
      lines_scope_headed ("#define " ++ signature name params) inner continued indent
    rw [hLayout, hHead, Line.fragment, hLines]
    exact ⟨⟨continued', indent, line⟩, rest, tail, rfl, hTail, hLine⟩
  · obtain ⟨line, tail, hLines, hTail, hLine⟩ := fragmentLines_definition hName hParams hSingle
      (by simp [hBlank])
    rw [hLayout, Layout.fragment, hLines]
    exact ⟨⟨continued, indent, line⟩, [], tail, rfl, hTail, hLine⟩

end

/-- A definition is written so that it can be read back. -/
theorem read?_defineMacro {name : String} {params : Option (List String)}
    (hName : isIdentifier name = true)
    (hParams : ∀ ps ∈ params, ps ≠ [] ∧ (∀ p ∈ ps, isIdentifier p = true) ∧ ps.Nodup)
    (expansion : String) (doWhile : Bool) (e : Emitter) : ∃ front first more tail,
      (e.defineMacro name params expansion doWhile).output =
          e.output ++ render (front ++ first :: more) ∧
        Macro.read? first.text = some ⟨name, params, tail⟩ := by
  obtain ⟨first, more, tail, hLines, hTail, hText⟩ := lines_definitionLayout hName
    (fun ps hps => (hParams ps hps).2.1) expansion doWhile e.inMacro e.indent
  refine ⟨e.waiting first.continued, first, more, tail, ?_, ?_⟩
  · rw [defineMacro_eq_after, after, hLines]
    rfl
  · exact Macro.read?_definition hName hParams hTail hText

/-- The name of an overload is an identifier if the macro's name is one and the values can be parts
of names. -/
theorem isIdentifier_variantName {name : String} {values : List String}
    (hName : isIdentifier name = true) (hValues : ∀ v ∈ values, isNamePart v = true) :
    isIdentifier (variantName name values) = true := by
  have hWord : ∀ c ∈ (name ++ "__" ++ "__".intercalate values).toList, isIdentChar c = true := by
    intro c hc
    rw [String.toList_append, String.toList_append, List.mem_append, List.mem_append] at hc
    have hSeparator : ∀ c ∈ "__".toList, isIdentChar c = true := List.all_eq_true.1 (by decide)
    rcases hc with (hc | hc) | hc
    · exact isIdentChar_of_isIdentifier hName c hc
    · exact hSeparator c hc
    · rcases mem_intercalate hc with hc | ⟨v, hv, hc⟩
      · exact hSeparator c hc
      · exact (isNamePart_iff.1 (hValues v hv)).2 c hc
  have hPrefix : ∀ c ∈ overloadPrefix.toList.tail, isIdentChar c = true :=
    List.all_eq_true.1 (by decide)
  have hText : (variantName name values).toList = '_' ::
      (overloadPrefix.toList.tail ++ (name ++ "__" ++ "__".intercalate values).toList) := by
    simp [variantName, overloadPrefix]
  rw [isIdentifier, hText]
  simp only [List.all_append, Bool.and_eq_true, List.all_eq_true]
  exact ⟨by decide, hPrefix, hWord⟩

/-- An overload that is accepted is defined under the name of its values, with the parameters that
do not select it. -/
theorem read?_overload {e : Emitter} {d : Definition} (hOverload : d.IsOverload)
    (hDone : ((Request.define d).perform e).1 = .done) (h : Dispatchable d.name d.group) :
    ∃ front first more tail,
      ((Request.define d).perform e).2.output = e.output ++ render (front ++ first :: more) ∧
        Macro.read? first.text = some ⟨d.variant, d.restParams, tail⟩ := by
  obtain ⟨params, hParams, hSound⟩ := hOverload.sound
  have hName : isIdentifier d.variant = true := by
    apply isIdentifier_variantName h.identifier
    intro v hv
    obtain ⟨key, hKey, rfl⟩ := List.mem_map.1 hv
    exact (hSound key hKey).2
  have hRest : ∀ ps ∈ d.restParams, ps ≠ [] ∧ (∀ p ∈ ps, isIdentifier p = true) ∧ ps.Nodup := by
    intro ps hps
    unfold Definition.restParams at hps
    split at hps
    next => cases hps
    next hNe =>
      obtain rfl := Option.some.inj hps
      exact ⟨by simpa using hNe, fun p hp => (h.params p (List.mem_filter.1 hp).1).1,
        h.params_nodup.filter _⟩
  have hDefines := hOverload.defineOutcome e
  generalize (Request.define d).perform e = result at hDone hDefines ⊢
  cases hDefines with
  | owned => cases hDone
  | mismatch => cases hDone
  | again => exact read?_defineMacro hName hRest d.expansion d.doWhile e
  | first =>
      exact read?_defineMacro hName hRest d.expansion d.doWhile
        (e.withLedger (e.ledger.overloading d.name d.group))

namespace Dispatchable

variable {name : String} {group : OverloadGroup}

/-- A group that can be dispatched consists of identifiers, none of which holds a line feed. -/
theorem singleLine (h : Dispatchable name group) : SingleLine name group where
  name := notMem_of_isIdentifier h.identifier rfl
  params p hp := notMem_of_isIdentifier (h.params p hp).1 rfl
  keys key hKey := notMem_of_isIdentifier (h.params key (h.keys key hKey)).1 rfl

/-- A dispatcher ends in a character that is not blank, so that nothing is lost when its line is
trimmed. -/
theorem exists_getLast?_dispatcher (h : Dispatchable name group) :
    ∃ last, (dispatcher name group).toList.getLast? = some last ∧ isBlank last = false := by
  cases hRest : group.rest.isEmpty with
  | false =>
      refine ⟨')', ?_, by decide⟩
      unfold dispatcher
      simp only [hRest, Bool.false_eq_true, if_false, String.toList_append, List.getLast?_append]
      rfl
  | true =>
      obtain ⟨key, keys, hKeys⟩ := List.exists_cons_of_ne_nil h.keys_ne
      obtain ⟨hNe, -⟩ :=
        isNamePart_iff.1 (h.isNamePart_param (h.keys key (hKeys ▸ .head keys)))
      have hText : ("##__##".intercalate group.keys).toList ≠ [] := by
        rw [hKeys, toList_intercalate_cons]
        simp [hNe]
      have hSolid : ∀ c ∈ ("##__##".intercalate group.keys).toList, isBlank c = false := by
        have hSeparator : ∀ c ∈ "##__##".toList, isBlank c = false := by
          have hAll : ("##__##".toList.all fun c => !isBlank c) = true := by decide
          simpa using hAll
        intro c hc
        rcases mem_intercalate hc with hc | ⟨key, hKey, hc⟩
        · exact hSeparator c hc
        · have hWord := isNamePart_iff.1 (h.isNamePart_param (h.keys key hKey))
          exact isBlank_of_isIdentChar (hWord.2 c hc)
      refine ⟨_, ?_, hSolid _ (List.getLast_mem hText)⟩
      unfold dispatcher
      simp only [hRest, if_true, String.toList_append, List.getLast?_append,
        List.getLast?_eq_some_getLast hText]
      rfl

/-- A dispatcher is written as it is. -/
theorem dispatcherLine_eq (h : Dispatchable name group) :
    dispatcherLine (name, group) = dispatcher name group ++ "\n" := by
  obtain ⟨last, hLast, hSolid⟩ := h.exists_getLast?_dispatcher
  rw [dispatcherLine, trimEnd_of_getLast? hLast hSolid]

end Dispatchable

/-- The file of a directive has a dispatcher for each of its overloads. -/
theorem exists_dispatcher_of_accepted (e : Emitter) (owner : String) (target : Target)
    {steps : List Request} (hSteps : ∀ r ∈ steps, r.Inner) {o : Overload}
    (ho : o ∈ (e.reset owner (some target)).accepts steps) (h : Dispatchable o.name o.group)
    (time : String) : ∃ before behind,
      (((e.reset owner (some target)).asked steps).finishAt time).1 =
        some ⟨target.path, before ++ (dispatcher o.name o.group ++ "\n") ++ behind⟩ := by
  have hStart : Lists (e.reset owner (some target)) [] := ⟨rfl, by simp, by simp [Emitter.reset]⟩
  have hListed := lists_asked hStart steps hSteps
  have hTarget : ((e.reset owner (some target)).asked steps).target = some target :=
    congrArg Prod.fst (file_asked hSteps (e.reset owner (some target)))
  obtain ⟨first, second, hOverloads, -⟩ := List.lookup_eq_some_iff.1 (hListed.groups o ho)
  have hLine : render (Line.fragment false 0 (dispatcher o.name o.group)) =
      dispatcher o.name o.group ++ "\n" := by
    rw [render_dispatcher h.singleLine, h.dispatcherLine_eq]
  have hGrouped : ∀ a b line c d : String,
      a ++ (b ++ (line ++ c)) ++ d = (a ++ b) ++ line ++ (c ++ d) := by
    simp [String.append_assoc]
  rw [fst_finishAt, hTarget, hOverloads, List.flatMap_append, List.flatMap_cons, render_append,
    render_append, hLine, Option.map_some]
  exact ⟨_, _, congrArg (fun text => some (Generated.mk target.path text)) (hGrouped _ _ _ _ _)⟩

/-- What becomes of a call of a macro that a directive overloads. -/
structure Dispatches (e : Emitter) (steps : List Request) (name : String) (group : OverloadGroup)
    (args : List String) : Prop where
  /-- The dispatcher is in the file of the directive. -/
  written : ∀ target, e.target = some target → ∀ time, ∃ before behind,
    ((Request.finishAt time).perform (e.asked steps)).1 =
      .finished (some ⟨target.path, before ++ (dispatcher name group ++ "\n") ++ behind⟩)
  /-- It replaces the call by one of the overload for the key arguments, with the remaining ones. -/
  expands : ∃ m, Macro.read? (dispatcher name group) = some m ∧ m.name = name ∧
    m.expand? args = some
      (variantName name (group.keys.map (valueOf (group.params.zip args))) ::
        callTokens (group.rest.map (valueOf (group.params.zip args))))
  /-- The overload for these arguments is defined under that name, and called like a function just
  if there are remaining parameters. -/
  defined : ∀ (past : List Request) (d : Definition) (later : List Request),
    steps = past ++ .define d :: later → d.name = name → d.overload ≠ [] →
    ((Request.define d).perform (e.asked past)).1 = .done →
      d.values = group.keys.map (valueOf (group.params.zip args)) → ∃ front first more tail,
        ((Request.define d).perform (e.asked past)).2.output =
            (e.asked past).output ++ render (front ++ first :: more) ∧
          Macro.read? first.text = some
            ⟨variantName name (group.keys.map (valueOf (group.params.zip args))),
              if group.rest.isEmpty then none else some group.rest, tail⟩

/-- An overload whose parameters are distinct identifiers, none of them one that the dispatcher
spells out itself, can be dispatched. -/
theorem Definition.IsOverload.dispatchable {d : Definition} (h : d.IsOverload)
    (hName : isIdentifier d.name = true)
    (hParams : ∀ p ∈ d.group.params, isIdentifier p = true ∧ p ≠ "__" ∧
      p ≠ overloadPrefix ++ d.name ++ "__")
    (hNodup : d.group.params.Nodup) : Dispatchable d.name d.group where
  identifier := hName
  params := hParams
  params_nodup := hNodup
  keys_ne := by simpa [Definition.group] using h.overload_ne
  keys key hKey := by
    obtain ⟨params, hGiven, hSound⟩ := h.sound
    obtain ⟨entry, hEntry, rfl⟩ := List.mem_map.1 hKey
    simpa [Definition.group, hGiven] using (hSound entry hEntry).1

/-- Calls of overloaded macros come to the overloads that their key arguments select. -/
theorem dispatches (e : Emitter) (owner : String) (target : Option Target) {steps : List Request}
    (hSteps : ∀ r ∈ steps, r.Inner) {o : Overload} (ho : o ∈ (e.reset owner target).accepts steps)
    (hName : isIdentifier o.name = true)
    (hParams : ∀ p ∈ o.group.params, isIdentifier p = true ∧ p ≠ "__" ∧
      p ≠ overloadPrefix ++ o.name ++ "__")
    (hNodup : o.group.params.Nodup) (args : List String)
    (hArgs : args.length = o.group.params.length)
    (hKeys : ∀ key ∈ o.group.keys, isNamePart (valueOf (o.group.params.zip args) key) = true) :
    Dispatches (e.reset owner target) steps o.name o.group args := by
  have hDispatchable : Dispatchable o.name o.group :=
    (isOverload_of_mem_accepts ho).dispatchable hName hParams hNodup
  refine ⟨?written, ?expands, ?defined⟩
  case written =>
    rintro t ht time
    obtain rfl : target = some t := ht
    obtain ⟨before, behind, hFile⟩ :=
      exists_dispatcher_of_accepted e owner t hSteps ho hDispatchable time
    exact ⟨before, behind, congrArg Answer.finished hFile⟩
  case expands =>
    exact ⟨_, hDispatchable.read?_dispatcher, rfl, hDispatchable.expand?_dispatcher hArgs hKeys⟩
  case defined =>
    rintro past d later rfl hSame hNe hDone hValues
    have hAccepted : (Request.define d).accepted? ((e.reset owner target).asked past) =
        some ⟨((e.reset owner target).asked past).owner, d⟩ := if_pos ⟨hNe, hDone⟩
    have hMem : ⟨((e.reset owner target).asked past).owner, d⟩ ∈
        (e.reset owner target).accepts (past ++ .define d :: later) := by
      rw [accepts_append]
      exact List.mem_append_right _ (by simp [accepts, hAccepted])
    have hGroup : d.group = o.group :=
      group_eq_of_accepted e owner target hSteps hMem ho hSame
    have hVariant : d.variant =
        variantName o.name (o.group.keys.map (valueOf (o.group.params.zip args))) := by
      rw [Definition.variant, hValues, hSame]
    have hRest : d.restParams = if o.group.rest.isEmpty then none else some o.group.rest := by
      rw [Definition.restParams, hGroup]
    rw [← hVariant, ← hRest]
    exact read?_overload (isOverload_of_mem_accepts hMem) hDone (by rwa [hSame, hGroup])

/-- A macro overloaded on its first parameter, for this value of it. -/
def chosen (value : String) : Definition where
  name := "PICK"
  params := some ["N", "X"]
  expansion := "X"
  overload := [("N", value)]

/-- A macro selected by the first of two parameters: a call with the value 2 is dispatched to the
second overload. -/
theorem dispatches_chosen : ⟨"a.c:1", chosen "1"⟩ ∈
      (({} : Emitter).reset "a.c:1" none).accepts [.define (chosen "1"), .define (chosen "2")] ∧
    Dispatches (({} : Emitter).reset "a.c:1" none) [.define (chosen "1"), .define (chosen "2")]
      "PICK" ⟨["N", "X"], ["N"]⟩ ["2", "y + z"] := by
  have hAccepted : ⟨"a.c:1", chosen "1"⟩ ∈ (({} : Emitter).reset "a.c:1" none).accepts
      [.define (chosen "1"), .define (chosen "2")] := by decide
  have hDispatches := dispatches {} "a.c:1" none
    (by simp [Request.Inner, Request.owner?, Request.ends]) hAccepted (by decide) (by decide)
    (by decide) ["2", "y + z"] rfl (by decide)
  exact ⟨hAccepted, hDispatches⟩

end Metagen.Emission
