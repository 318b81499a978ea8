import Metagen.Proofs.Parallel.Data
import Metagen.Proofs.Run.Imports

/-! The copies that a directive starts with, one by one. Each name that it imports is bound to a
copy of its own: names that share a container before they are imported do not share it
afterwards. -/

namespace Metagen

namespace MatchContents

variable {R : Container → Container → Prop} {s s' t t' : Store} {c d : Container}

/-- Containers that still hold the same still match. -/
theorem of_agrees (h : MatchContents R s t c d) (hFirst : s.Agrees s' c.cell)
    (hSecond : t.Agrees t' d.cell) : MatchContents R s' t' c d := by
  cases h with
  | @list a b h =>
      refine .list ?_
      rw [← show s.listAt a = s'.listAt a from hFirst, ← show t.listAt b = t'.listAt b from hSecond]
      exact h
  | @record a b h =>
      refine .record ?_
      rw [← show s.recordAt a = s'.recordAt a from hFirst,
        ← show t.recordAt b = t'.recordAt b from hSecond]
      exact h

/-- Contents that match by one relation match by every weaker one. -/
theorem mono {Q : Container → Container → Prop} (h : MatchContents R s t c d)
    (hImp : ∀ c d, R c d → Q c d) : MatchContents Q s t c d := by
  cases h with
  | list h => exact .list (h.imp fun _ _ h => h.mono hImp)
  | record h => exact .record (h.imp fun _ _ h => ⟨h.1, h.2.mono hImp⟩)

end MatchContents

namespace SymbolTable

variable {symbols : SymbolTable} {env : Env} {s t : Store} {names : List String} {name : String}
  {v : Value} {copies : String → Container → Container → Prop}

/-- Some names are bound to copies of what was recorded for them in the first store. The relation
tells what is a copy of what, for each name. -/
structure Imported (symbols : SymbolTable) (s : Store) (env : Env) (names : List String) (t : Store)
    (copies : String → Container → Container → Prop) : Prop where
  unique : ∀ name, Relator.BiUnique (copies name)
  own : ∀ {name other c e d}, copies name c d → copies other e d → name = other
  made : ∀ {name c d}, copies name c d → t.HasCell d.cell
  reached : ∀ {name c d}, copies name c d →
    name ∈ names ∧ ∃ v, symbols.get? name = some v ∧ c ∈ s.reached v
  contents : ∀ {name c d}, copies name c d → MatchContents (copies name) s t c d
  bound : ∀ name ∈ names, ∀ v, symbols.get? name = some v →
    ∃ w, env.namespaceGet? t name = some w ∧ MatchValue (copies name) v w
  globals : (t.namespaceAt env.namespaceCell).globals = []

namespace Imported

/-- With the copies for one more name, a copy is one of these or one for another name. -/
theorem update_cases {made : Container → Container → Prop} {other : String} {c d : Container}
    (h : Function.update copies name made other c d) :
    other = name ∧ made c d ∨ other ≠ name ∧ copies other c d := by
  by_cases hName : other = name
  · subst hName
    rw [Function.update_self] at h
    exact .inl ⟨rfl, h⟩
  · rw [Function.update_of_ne hName] at h
    exact .inr ⟨hName, h⟩

/-- One more name. -/
theorem concat (h : Imported symbols s env names t copies) (hClosed : s.Closed) (ht : t.Closed)
    (hv : s.HasValue v) (hGrown : s.Grown t)
    (hOld : ∀ c : Container, s.HasCell c.cell → s.Agrees t c.cell)
    (hCell : env.namespaceCell < t.namespaces.size) (hNew : name ∉ names)
    (hValue : symbols.get? name = some v) :
    ∃ copies, Imported symbols s env (names ++ [name]) (importName symbols env t name) copies := by
  have hReached : ∀ c ∈ t.reached v, c ∈ s.reached v :=
    Store.mem_reached_of_agrees hClosed hv fun c hc =>
      hOld c (Store.hasCell_of_mem_reached hClosed hv hc)
  have hvt : t.HasValue v := fun x hx => hGrown.hasCell (hv x hx)
  rw [importName_eq hValue]
  have hSize : env.namespaceCell < (t.deepCopy v).2.namespaces.size := hCell
  have hDefine := fun c => env.agrees_defineNamespace (t.deepCopy v).2 name (t.deepCopy v).1 c
  have hKept : ∀ d : Container, t.HasCell d.cell →
      t.Agrees (env.defineNamespace (t.deepCopy v).2 name (t.deepCopy v).1) d.cell :=
    fun d hd => (Store.agrees_deepCopy hd v).trans (hDefine d)
  let made := t.CopyOf (t.met v)
  have hSelf : Function.update copies name made name = made := Function.update_self ..
  have hOther : ∀ {n}, n ≠ name → Function.update copies name made n = copies n :=
    fun hNe => Function.update_of_ne hNe ..
  refine ⟨Function.update copies name made, fun n => ?_, ?_, fun hCopy => ?_, fun hCopy => ?_, ?_,
    ?_, ?_⟩
  · by_cases hName : n = name
    · rw [hName, hSelf]
      exact t.copyOf_biUnique (Store.nodup_met ht hvt)
    · rw [hOther hName]
      exact h.unique n
  · -- Copies for this name are new, and all others are not.
    intro n o c e d hFirst hSecond
    rcases update_cases hFirst with ⟨hn, hMade⟩ | ⟨-, hCopied⟩
    · rcases update_cases hSecond with ⟨ho, -⟩ | ⟨-, hCopied⟩
      · exact hn.trans ho.symm
      · exact (hMade.not_hasCell (h.made hCopied)).elim
    · rcases update_cases hSecond with ⟨-, hMade⟩ | ⟨-, hCopied'⟩
      · exact (hMade.not_hasCell (h.made hCopied)).elim
      · exact h.own hCopied hCopied'
  · apply Env.hasCell_defineNamespace
    rcases update_cases hCopy with ⟨-, hMade⟩ | ⟨-, hCopied⟩
    · exact hMade.hasCell ht hvt
    · exact (t.grown_deepCopy v).hasCell (h.made hCopied)
  · rcases update_cases hCopy with ⟨rfl, hMade⟩ | ⟨-, hCopied⟩
    · exact ⟨List.mem_append_right _ List.mem_cons_self, v, hValue,
        hReached _ (hMade.mem_reached ht hvt)⟩
    · obtain ⟨hMem, hOriginal⟩ := h.reached hCopied
      exact ⟨List.mem_append_left _ hMem, hOriginal⟩
  · intro n c d hCopy
    rcases update_cases hCopy with ⟨hName, hMade⟩ | ⟨hName, hCopied⟩
    · rw [hName, hSelf]
      refine Store.matchContents_deepCopy ht hvt (fun c hc => ?_) (fun d _ => hDefine d) hMade
      exact hOld c (Store.hasCell_of_mem_reached hClosed hv (hReached c hc))
    · rw [hOther hName]
      exact (h.contents hCopied).of_agrees (.refl s _) (hKept d (h.made hCopied))
  · intro n hn w hw
    rw [Env.namespaceGet?_defineNamespace hSize]
    by_cases hName : n = name
    · subst hName
      rw [hValue] at hw
      obtain rfl := Option.some.inj hw
      rw [if_pos rfl, hSelf]
      exact ⟨_, rfl, Store.matchValue_deepCopy ht hvt⟩
    · rw [if_neg hName, hOther hName]
      have hMem : n ∈ names := by simpa [hName] using hn
      exact h.bound n hMem w hw
  · have hGlobals := congrArg Namespace.globals (Store.namespaceAt_modifyNamespace hSize
      fun n => { n with bindings := n.bindings.insert name (t.deepCopy v).1 })
    exact hGlobals.trans h.globals

end Imported

/-- Names that are recorded and distinct can all be imported, each with a copy of its own. -/
theorem exists_imported (hClosed : s.Closed)
    (hMade : ∀ name v, symbols.get? name = some v → s.HasValue v)
    (hNames : ∀ name ∈ names, name ∈ symbols.names) (hNodup : names.Nodup) :
    ∃ copies, Imported symbols s (Env.fresh s).1 names
      (names.foldl (importName symbols (Env.fresh s).1) (Env.fresh s).2) copies := by
  let env := (Env.fresh s).1
  let opened := (Env.fresh s).2
  obtain ⟨hFresh, hEnv⟩ := (Guard.keeps_nothing hClosed).freshEnv
  induction names using List.reverseRecOn with
  | nil =>
      have hGlobals : (opened.namespaceAt env.namespaceCell).globals = [] :=
        congrArg Namespace.globals (getD_push_self s.namespaces {} {})
      exact ⟨fun _ _ _ => False, fun _ => ⟨fun _ _ _ h => h.elim, fun _ _ _ h => h.elim⟩,
        fun h => h.elim, fun h => h.elim, fun h => h.elim, fun h => h.elim,
        fun _ h => (List.not_mem_nil h).elim, hGlobals⟩
  | append_singleton names name ih =>
      obtain ⟨hOthers, -, hNew⟩ := List.nodup_append.1 hNodup
      obtain ⟨copies, hImported⟩ := ih (fun n hn => hNames n (List.mem_append_left _ hn)) hOthers
      obtain ⟨v, hValue⟩ := (symbols.exists_get?_iff name).2
        (hNames name (List.mem_append_right _ List.mem_cons_self))
      have hBefore : (Guard.nothing s hClosed).Advances opened
          (names.foldl (importName symbols env) opened) :=
        hFresh.keeps.importNames hEnv fun n _ u hu =>
          .inr (Guard.harmless_nothing hClosed (hMade n u hu))
      rw [List.foldl_append]
      apply hImported.concat hClosed hBefore.keeps.closedStore (hMade name v hValue)
        (hFresh.trans hBefore).grown
      · intro c hc
        have hOpened : s.Agrees opened c.cell := by
          cases c <;> rfl
        exact hOpened.trans (agrees_importNames names (hFresh.grown.hasCell hc))
      · exact ((hEnv _ List.mem_cons_self).mono hBefore.grown).1
      · exact fun hOld => hNew name hOld name List.mem_cons_self rfl
      · exact hValue

variable {symbols' : SymbolTable} {s' t' : Store} {env' : Env}
  {copies' : String → Container → Container → Prop}

/-- The names are recorded in both tables, for data that looks alike. -/
def ImportAlike (symbols : SymbolTable) (s : Store) (symbols' : SymbolTable) (s' : Store)
    (names : List String) : Prop :=
  ∀ name ∈ names, ∃ v w, symbols.get? name = some v ∧ symbols'.get? name = some w ∧
    Alike s v s' w ∧ s.IsData v

/-- Copies stand for each other if the originals do. -/
theorem Imported.exists_dataPairs (h : Imported symbols s env names t copies)
    {names' : List String} (h' : Imported symbols' s' env' names' t' copies')
    (hNames : names ⊆ names') (hAlike : ImportAlike symbols s symbols' s' names) :
    ∃ R, DataPairs R t t' ∧ ∀ name ∈ names, ∃ x y, env.namespaceGet? t name = some x ∧
      env'.namespaceGet? t' name = some y ∧ MatchValue R x y ∧ ∀ f, x ≠ .function f := by
  choose v w hv hw hAlike hData using hAlike
  choose A hUnique hContents hMatch using hAlike
  let R : Container → Container → Prop := fun c d =>
    ∃ name hn a b, copies name a c ∧ A name hn a b ∧ copies' name b d
  have hThrough : ∀ {name} (hn : name ∈ names) c d,
      Relation.Comp (fun c a => copies name a c) (Relation.Comp (A name hn) (copies' name)) c d →
        R c d := by
    rintro name hn c d ⟨a, hc, b, hab, hd⟩
    exact ⟨name, hn, a, b, hc, hab, hd⟩
  refine ⟨R, ⟨⟨?_, ?_⟩, ?_, ?_, ?_⟩, fun name hn => ?_⟩
  · rintro c e d ⟨name, hn, a, b, hc, hab, hd⟩ ⟨other, hn', a', b', he, hab', hd'⟩
    obtain rfl := h'.own hd hd'
    obtain rfl := (h'.unique name).1 hd hd'
    obtain rfl := (hUnique name hn).1 hab hab'
    exact (h.unique name).2 hc he
  · rintro c d e ⟨name, hn, a, b, hc, hab, hd⟩ ⟨other, hn', a', b', hc', hab', he⟩
    obtain rfl := h.own hc hc'
    obtain rfl := (h.unique name).1 hc hc'
    obtain rfl := (hUnique name hn).2 hab hab'
    exact (h'.unique name).2 hd he
  · rintro c d ⟨name, hn, a, b, hc, hab, hd⟩
    exact ⟨h.made hc, h'.made hd⟩
  · rintro c d ⟨name, hn, a, b, hc, hab, hd⟩
    have hSteps := (hContents name hn a b hab).comp (h'.contents hd)
    exact ((h.contents hc).flip.comp hSteps).mono (hThrough hn)
  · rintro c d ⟨name, hn, a, b, hc, -, -⟩ f hf
    obtain ⟨z, hz, hSame⟩ := exists_of_mem_right (h.contents hc).contents hf
    obtain rfl := hSame.eq_function
    obtain ⟨-, u, hu, ha⟩ := h.reached hc
    obtain rfl := Option.some.inj (hu.symm.trans (hv name hn))
    exact hData name hn f (.inr ⟨a, ha, hz⟩)
  · obtain ⟨x, hx, hvx⟩ := h.bound name hn _ (hv name hn)
    obtain ⟨y, hy, hwy⟩ := h'.bound name (hNames hn) _ (hw name hn)
    refine ⟨x, y, hx, hy, ?_, ?_⟩
    · exact (hvx.flip.comp ((hMatch name hn).comp hwy)).mono (hThrough hn)
    · rintro f rfl
      exact hData name hn f (.inl hvx.eq_function.symm)

/-- The names of a directive that starts are a new cell of its store. -/
theorem namespaceCell_lt {d : Directive} (hClosed : s.Closed)
    (hMade : ∀ name v, symbols.get? name = some v → s.HasValue v) :
    (symbols.namespaceFor d s).1.namespaceCell < (symbols.namespaceFor d s).2.namespaces.size := by
  have hStart := (Guard.keeps_nothing hClosed).namespaceFor
    fun name (_ : name ∈ d.importedNames) v hv =>
    .inr (Guard.harmless_nothing hClosed (hMade name v hv))
  exact ((Guard.freeEnv_iff.1 hStart.2).1).1

/-- What is not imported is not bound when a directive starts. -/
theorem namespaceGet?_namespaceFor_of_not_mem {d : Directive} (symbols : SymbolTable) (s : Store)
    (hName : name ∉ d.importedNames) :
    (symbols.namespaceFor d s).1.namespaceGet? (symbols.namespaceFor d s).2 name = none := by
  have hNew : (Env.fresh s).2.namespaceAt (Env.fresh s).1.namespaceCell = {} :=
    getD_push_self s.namespaces {} {}
  have hUnbound : (Env.fresh s).1.namespaceGet? (Env.fresh s).2 name = none := by
    rw [Env.namespaceGet?, hNew]
    rfl
  refine (namespaceGet?_importNames hName ?_).trans hUnbound
  exact Nat.lt_of_lt_of_eq (Nat.lt_succ_self _) (Array.size_push _).symm

/-- Two directives that import the same names start in paired stores, if data is recorded for them
that looks alike. -/
theorem exists_pairing_namespaceFor {d d' : Directive} (hClosed : s.Closed)
    (hMade : ∀ name v, symbols.get? name = some v → s.HasValue v) (hClosed' : s'.Closed)
    (hMade' : ∀ name v, symbols'.get? name = some v → s'.HasValue v)
    (hNodup : d.importedNames.Nodup) (hImports : d.importedNames.Perm d'.importedNames)
    (hAlike : ImportAlike symbols s symbols' s' d.importedNames) :
    ∃ g : Pairing, g.Stores (symbols.namespaceFor d s).2 (symbols'.namespaceFor d' s').2 ∧
      g.Envs (symbols.namespaceFor d s).1 (symbols'.namespaceFor d' s').1 := by
  have hRecorded : ∀ name ∈ d.importedNames, name ∈ symbols.names ∧ name ∈ symbols'.names := by
    intro name hName
    obtain ⟨v, w, hv, hw, -⟩ := hAlike name hName
    exact ⟨(symbols.exists_get?_iff name).1 ⟨v, hv⟩, (symbols'.exists_get?_iff name).1 ⟨w, hw⟩⟩
  obtain ⟨copies, (hFirst : Imported symbols s (symbols.namespaceFor d s).1 d.importedNames
      (symbols.namespaceFor d s).2 copies)⟩ :=
    exists_imported hClosed hMade (fun n hn => (hRecorded n hn).1) hNodup
  obtain ⟨copies', (hSecond : Imported symbols' s' (symbols'.namespaceFor d' s').1 d'.importedNames
      (symbols'.namespaceFor d' s').2 copies')⟩ :=
    exists_imported hClosed' hMade' (fun n hn => (hRecorded n (hImports.mem_iff.2 hn)).2)
      (hImports.nodup_iff.1 hNodup)
  obtain ⟨R, hPairs, hBound⟩ := hFirst.exists_dataPairs hSecond hImports.subset hAlike
  let g : Pairing := .ofData hPairs (namespaceCell_lt hClosed hMade)
    (namespaceCell_lt hClosed' hMade')
  have hNames : ∀ name, Option.Rel g.Values
      ((symbols.namespaceFor d s).1.namespaceGet? (symbols.namespaceFor d s).2 name)
      ((symbols'.namespaceFor d' s').1.namespaceGet? (symbols'.namespaceFor d' s').2 name) := by
    intro name
    by_cases hName : name ∈ d.importedNames
    · obtain ⟨x, y, hx, hy, hMatch, hData⟩ := hBound name hName
      rw [hx, hy]
      exact .some (Pairing.values_ofData hMatch hData)
    · rw [namespaceGet?_namespaceFor_of_not_mem symbols s hName,
        namespaceGet?_namespaceFor_of_not_mem symbols' s' (mt hImports.mem_iff.2 hName)]
      exact .none
  exact ⟨g, Pairing.stores_ofData ⟨hNames, hFirst.globals.trans hSecond.globals.symm⟩,
    Pairing.envs_ofData rfl rfl⟩

end SymbolTable

end Metagen
