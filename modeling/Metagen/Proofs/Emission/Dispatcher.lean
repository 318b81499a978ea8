import Metagen.Proofs.Emission.Layout
import Metagen.Proofs.Emission.Preprocessing
import Metagen.Proofs.Text.Words

/-! The text of a dispatcher. It is one line of the file if the names in it are, and is then written
as it is, up to blanks at its end. -/

namespace Metagen.Emission

open Text Emitter Preprocessing

/-- A text of one line that does not start with a blank is written without the blanks at its end. -/
theorem fragmentLines_of_single {text : String} {c : Char} (hFirst : text.toList.head? = some c)
    (hBlank : isBlank c = false) (hSingle : '\n' ∉ text.toList) :
    fragmentLines text = [trimEnd text] := by
  obtain ⟨cs, hText⟩ := List.head?_eq_some_iff.1 hFirst
  have hLines : Text.lines text = [text] := by
    unfold Text.lines
    rw [List.splitOn_eq_singleton hSingle, hText]
    have hBack : String.ofList (c :: cs) = text := by rw [← hText, String.ofList_toList]
    simp [← hBack]
  have hAllBlank : isAllBlank text = false := by simp [isAllBlank, hText, hBlank]
  have hLiteral : literalLines text = [text] := by simp [literalLines, hLines, hAllBlank]
  have hLeading : leadingBlanks text = 0 := by simp [leadingBlanks, hText, hBlank]
  simp [fragmentLines, dedentLines, hLiteral, shiftLeft, hAllBlank, hLeading]

theorem trimEnd_trimEnd (text : String) : trimEnd (trimEnd text) = trimEnd text := by
  simp [trimEnd, dropTrailing, List.dropWhile_idempotent]

/-- No name of a macro with overloads goes over a line end. -/
structure SingleLine (name : String) (group : OverloadGroup) : Prop where
  name : '\n' ∉ name.toList
  params : ∀ p ∈ group.params, '\n' ∉ p.toList
  keys : ∀ key ∈ group.keys, '\n' ∉ key.toList

namespace SingleLine

variable {name : String} {group : OverloadGroup}

/-- A dispatcher of names that stay on one line does so too. -/
theorem dispatcher (h : SingleLine name group) : '\n' ∉ (dispatcher name group).toList := by
  have hParams : '\n' ∉ (", ".intercalate group.params).toList :=
    notMem_intercalate (by decide) h.params
  have hKeys : '\n' ∉ ("##__##".intercalate group.keys).toList :=
    notMem_intercalate (by decide) h.keys
  have hRest : '\n' ∉ (", ".intercalate group.rest).toList :=
    notMem_intercalate (by decide) fun p hp => h.params p (List.mem_filter.1 hp).1
  unfold Emission.dispatcher overloadPrefix
  cases group.rest.isEmpty with
  | true =>
      simp only [if_pos, String.toList_append, List.mem_append, h.name, hParams, hKeys, or_false]
      decide
  | false =>
      simp only [Bool.false_eq_true, if_false, String.toList_append, List.mem_append, h.name,
        hParams, hKeys, hRest, or_false]
      decide

/-- A dispatcher is one fragment of one line, without the blanks at its end. -/
theorem fragmentLines_dispatcher (h : SingleLine name group) :
    fragmentLines (Emission.dispatcher name group) =
      [trimEnd (Emission.dispatcher name group)] := by
  apply fragmentLines_of_single (c := '#') _ (by decide) h.dispatcher
  unfold Emission.dispatcher
  simp

end SingleLine

/-- Arguments in parentheses, if there are any. -/
def callTokens (args : List String) : List String :=
  if args.isEmpty then [] else "(" :: args.intersperse "," ++ [")"]

theorem callTokens_cons (first : String) (rest : List String) :
    callTokens (first :: rest) = "(" :: first :: (rest.flatMap ([",", ·]) ++ [")"]) := by
  have hBetween : (first :: rest).intersperse "," = first :: rest.flatMap ([",", ·]) := by
    induction rest generalizing first with
    | nil => rfl
    | cons next rest ih => rw [List.intersperse_cons_cons, ih]; rfl
  simp [callTokens, hBetween]

/-- The group can be dispatched in C: its parameters are different names, none of them one of the
two that its dispatcher spells out, and its keys are different parameters. -/
structure Dispatchable (name : String) (group : OverloadGroup) : Prop where
  identifier : isIdentifier name = true
  params : ∀ p ∈ group.params, isIdentifier p = true ∧ p ≠ "__" ∧
    p ≠ overloadPrefix ++ name ++ "__"
  params_nodup : group.params.Nodup
  keys_ne : group.keys ≠ []
  keys : ∀ key ∈ group.keys, key ∈ group.params

/-- What a dispatcher puts in the place of a call. -/
def replacement (name : String) (group : OverloadGroup) : List Char :=
  (overloadPrefix ++ name ++ "__").toList ++ '#' :: '#' ::
    (("##__##".intercalate group.keys).toList ++
      (if group.rest.isEmpty then "" else "(" ++ ", ".intercalate group.rest ++ ")").toList)

namespace Dispatchable

variable {name : String} {group : OverloadGroup}

/-- The preprocessor reads a dispatcher as the macro with the group's parameters and the replacement
that was meant. -/
theorem read?_dispatcher (h : Dispatchable name group) :
    Macro.read? (dispatcher name group) =
      some ⟨name, some group.params, ' ' :: replacement name group⟩ := by
  apply Macro.read?_definition h.identifier
  · rintro ps ⟨⟩
    obtain ⟨key, hKey⟩ := List.exists_mem_of_ne_nil _ h.keys_ne
    exact ⟨List.ne_nil_of_mem (h.keys key hKey), fun p hp => (h.params p hp).1, h.params_nodup⟩
  · rintro c ⟨⟩
    rfl
  · unfold dispatcher signature replacement
    simp only [Option.elim_some, String.toList_append, List.append_assoc]
    rfl

/-- The tokens of what is written for some parameters in parentheses. -/
theorem tokensFrom_call {params : List String} (h : ∀ p ∈ params, isNamePart p = true)
    {word : List Char} (hWord : word ≠ []) :
    tokensFrom word
        (if params.isEmpty then "" else "(" ++ ", ".intercalate params ++ ")").toList =
      .text (.ofList word) :: (callTokens params).map .text := by
  cases params with
  | nil => simp [tokensFrom, ending, hWord, callTokens]
  | cons p ps =>
      have hText : (if (p :: ps).isEmpty then "" else
          "(" ++ ", ".intercalate (p :: ps) ++ ")").toList =
            '(' :: (p.toList ++ (ps.flatMap (", ".toList ++ ·.toList) ++ [')'])) := by
        rw [if_neg (by simp), String.toList_append, String.toList_append, toList_intercalate_cons]
        simp
      obtain ⟨hNe, hChars⟩ := isNamePart_iff.1 (h p (.head ps))
      have hRest := tokensFrom_separated ", ".toList [')'] [.text ","] [.text ")"]
        (fun word cs hWord => by simp [tokensFrom_comma, tokensFrom_blank, ending, hWord])
        (fun word hWord => by simp [tokensFrom_closing, tokensFrom, ending, hWord])
        (fun p' hp' => h p' (.tail p hp')) hNe
      rw [hText, tokensFrom_opening, tokensFrom_word hChars, List.nil_append, hRest,
        callTokens_cons]
      simp [ending, hWord, List.map_flatMap]

/-- The prefix, the macro's name and two underscores make up a part of a name, to which the values
are pasted. -/
theorem isNamePart_stem (h : Dispatchable name group) :
    isNamePart (overloadPrefix ++ name ++ "__") = true :=
  isNamePart_append (isNamePart_append (by decide) (isNamePart_of_isIdentifier h.identifier))
    (by decide)

theorem isNamePart_param (h : Dispatchable name group) {p : String} (hp : p ∈ group.params) :
    isNamePart p = true := isNamePart_of_isIdentifier (h.params p hp).1

/-- Read as tokens, the replacement pastes the prefix and the selecting parameters together, and
then calls with the rest. -/
theorem tokensFrom_replacement (h : Dispatchable name group) {key : String} {keys : List String}
    (hKeys : group.keys = key :: keys) : tokensFrom [] (' ' :: replacement name group) =
      .text (overloadPrefix ++ name ++ "__") ::
        pastings (key :: keys.flatMap (["__", ·])) (callTokens group.rest) := by
  have hKey : ∀ k ∈ key :: keys, isNamePart k = true :=
    fun k hk => h.isNamePart_param (h.keys k (hKeys ▸ hk))
  obtain ⟨hStem, hStemChars⟩ := isNamePart_iff.1 h.isNamePart_stem
  obtain ⟨hFirst, hFirstChars⟩ := isNamePart_iff.1 (hKey key (.head keys))
  have hCall : ∀ word, word ≠ [] → tokensFrom word (if group.rest.isEmpty then "" else
      "(" ++ ", ".intercalate group.rest ++ ")").toList =
        .text (.ofList word) :: (callTokens group.rest).map .text :=
    fun word => tokensFrom_call fun p hp => h.isNamePart_param (List.mem_filter.1 hp).1
  have hBetween : ∀ word cs, word ≠ [] → tokensFrom word ("##__##".toList ++ cs) =
      .text (.ofList word) :: ([.pasting, .text "__", .pasting] ++ tokensFrom [] cs) := by
    intro word cs hWord
    have hInner : tokensFrom [] ('_' :: '_' :: '#' :: '#' :: cs) =
        .text "__" :: .pasting :: tokensFrom [] cs := rfl
    have hText : "##__##".toList ++ cs = '#' :: '#' :: '_' :: '_' :: '#' :: '#' :: cs := rfl
    rw [hText, tokensFrom_pasting, hInner, ending, if_neg (by simpa using hWord)]
    rfl
  have hRest := tokensFrom_separated _ _ _ _ hBetween hCall (fun k hk => hKey k (.tail key hk))
    hFirst
  rw [tokensFrom_blank, replacement, tokensFrom_word hStemChars, List.nil_append,
    tokensFrom_pasting, hKeys, toList_intercalate_cons, List.append_assoc,
    tokensFrom_word hFirstChars, List.nil_append, hRest]
  simp [ending, pastings, List.flatMap_assoc, String.append_assoc]

/-- What is no parameter stays as it is. -/
theorem valueOf_of_notMem {params args : List String} {word : String} (h : word ∉ params) :
    valueOf (params.zip args) word = word := by
  have hNone : (params.zip args).lookup word = none := by
    rw [List.lookup_eq_none_iff]
    intro p hp
    rw [bne_iff_ne]
    rintro rfl
    exact h (List.of_mem_zip hp).1
  rw [valueOf, hNone, Option.getD_none]

/-- What is no identifier is no parameter of a macro that can be dispatched. -/
theorem notMem_params (h : Dispatchable name group) {word : String}
    (hWord : isIdentifier word = false) : word ∉ group.params := by
  intro hp
  rw [(h.params word hp).1] at hWord
  cases hWord

/-- Substitution in the arguments of the inner call replaces each parameter by its argument and
nothing else. -/
theorem map_callTokens (h : Dispatchable name group) (args params : List String) :
    (callTokens params).map (valueOf (group.params.zip args)) =
      callTokens (params.map (valueOf (group.params.zip args))) := by
  have hPlain : ∀ word : String, isIdentifier word = false →
      valueOf (group.params.zip args) word = word :=
    fun word hWord => valueOf_of_notMem (h.notMem_params hWord)
  cases params with
  | nil => rfl
  | cons p ps =>
      rw [List.map_cons, callTokens_cons, callTokens_cons]
      simp [hPlain "(" (by decide), hPlain ")" (by decide), hPlain "," (by decide),
        List.map_flatMap, List.flatMap_map]

/-- A call is replaced by the name of the overload that the key arguments select, and the remaining
arguments in parentheses. -/
theorem expand?_dispatcher (h : Dispatchable name group) {args : List String}
    (hArgs : args.length = group.params.length)
    (hKeys : ∀ key ∈ group.keys, isNamePart (valueOf (group.params.zip args) key) = true) :
    Macro.expand? ⟨name, some group.params, ' ' :: replacement name group⟩ args =
      some (variantName name (group.keys.map (valueOf (group.params.zip args))) ::
        callTokens (group.rest.map (valueOf (group.params.zip args)))) := by
  obtain ⟨key, keys, hGroup⟩ := List.exists_cons_of_ne_nil h.keys_ne
  have hStem : valueOf (group.params.zip args) (overloadPrefix ++ name ++ "__") =
      overloadPrefix ++ name ++ "__" := valueOf_of_notMem fun hp => (h.params _ hp).2.2 rfl
  have hBetween : valueOf (group.params.zip args) "__" = "__" :=
    valueOf_of_notMem fun hp => (h.params _ hp).2.1 rfl
  have hParts : ∀ part ∈ valueOf (group.params.zip args) key ::
      (keys.map (valueOf (group.params.zip args))).flatMap (["__", ·]), isNamePart part = true := by
    rw [hGroup] at hKeys
    simp only [List.mem_cons, List.mem_flatMap, List.mem_map, List.not_mem_nil, or_false]
    rintro _ (rfl | ⟨_, ⟨k, hk, rfl⟩, rfl | rfl⟩)
    · exact hKeys key (.head keys)
    · decide
    · exact hKeys k (.tail key hk)
  have hWords : (key :: keys.flatMap (["__", ·])).map (valueOf (group.params.zip args)) =
      valueOf (group.params.zip args) key ::
        (keys.map (valueOf (group.params.zip args))).flatMap (["__", ·]) := by
    simp [List.map_flatMap, List.flatMap_map, hBetween]
  unfold Macro.expand?
  dsimp only
  rw [if_pos hArgs, h.tokensFrom_replacement hGroup, List.map_cons, map_pastings, hWords,
    h.map_callTokens, Token.substitute, hStem, paste, pasteOnto_pastings h.isNamePart_stem hParts,
    join_flatMap_eq_intercalate, hGroup, List.map_cons, variantName]

end Dispatchable

end Metagen.Emission
