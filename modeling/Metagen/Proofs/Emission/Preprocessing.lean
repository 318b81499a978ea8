import Metagen.Emission.Definition
import Metagen.Proofs.Text.Words

/-! What the C preprocessor makes of a macro definition, as far as dispatchers and overloads need
it: how the line of a definition is read, how its replacement is cut into tokens, and how one call
is replaced, which first puts the arguments in the places of the parameters and then pastes. -/

namespace Metagen.Preprocessing

open Text Emission

/-- A token of a replacement, or the argument that has taken the place of one. -/
inductive Token where
  | text (spelling : String)
  /-- The operator that makes one token of those on both sides. -/
  | pasting
  deriving DecidableEq, Repr

/-- The word that has been read so far, if there is one, comes first. -/
def ending (word : List Char) (rest : List Token) : List Token :=
  if word.isEmpty then rest else .text (.ofList word) :: rest

/-- The tokens of a text behind a word that may go on. Names and numbers are as long as possible;
apart from the pasting operator each other character is a token, which is all that is needed where
there are no literals and no longer operators. -/
def tokensFrom (word : List Char) : List Char → List Token
  | [] => ending word []
  | '#' :: '#' :: cs => ending word (.pasting :: tokensFrom [] cs)
  | c :: cs =>
    if isIdentChar c then tokensFrom (word ++ [c]) cs
    else if isBlank c then ending word (tokensFrom [] cs)
    else ending word (.text (.singleton c) :: tokensFrom [] cs)

/-- A definition that was read. Without a parameter list the macro is not called like a function. -/
structure Macro where
  name : String
  params : Option (List String)
  replacement : List Char
  deriving DecidableEq, Repr

/-- The names between the parentheses of a parameter list, which are different. -/
def readParams? (cs : List Char) : Option (List String) :=
  let names := if cs.all isBlank then [] else (cs.splitOn ',').map fun part => trim (.ofList part)
  if names.all isIdentifier && names.Nodup then some names else none

/-- Read what is behind the keyword of a definition. Only a parenthesis right behind the name opens
a parameter list. -/
def Macro.readFrom? (cs : List Char) : Option Macro :=
  let name := String.ofList (cs.takeWhile isIdentChar)
  if isIdentifier name then
    match cs.dropWhile isIdentChar with
    | '(' :: rest => (readParams? (rest.takeWhile (· != ')'))).map fun params =>
        ⟨name, some params, (rest.dropWhile (· != ')')).tail⟩
    | rest => some ⟨name, none, rest⟩
  else none

def Macro.read? (line : String) : Option Macro :=
  if "#define ".toList.isPrefixOf line.toList then
    readFrom? (line.toList.drop "#define ".toList.length)
  else none

/-- What stands for a name: the argument, if it is a parameter. -/
def valueOf (binding : List (String × String)) (name : String) : String :=
  (binding.lookup name).getD name

def Token.substitute (binding : List (String × String)) : Token → Token
  | text spelling => text (valueOf binding spelling)
  | pasting => pasting

/-- Behind a first token paste the tokens to one another, from left to right. What is pasted has to
be a name or a number again. -/
def pasteOnto (left : String) : List Token → Option (List String)
  | [] => some [left]
  | .pasting :: .text right :: rest =>
    if isNamePart (left ++ right) then pasteOnto (left ++ right) rest else none
  | .pasting :: _ => none
  | .text right :: rest => (pasteOnto right rest).map (left :: ·)

/-- Paste tokens to one another. -/
def paste : List Token → Option (List String)
  | [] => some []
  | .text left :: rest => pasteOnto left rest
  | .pasting :: _ => none

/-- Replace one call of a macro by these tokens, which are not looked at again. -/
def Macro.expand? (m : Macro) (args : List String) : Option (List String) :=
  match m.params with
  | none => none
  | some params =>
    if args.length = params.length then
      paste ((tokensFrom [] m.replacement).map (Token.substitute (params.zip args)))
    else none

theorem isNamePart_iff {s : String} :
    isNamePart s = true ↔ s.toList ≠ [] ∧ ∀ c ∈ s.toList, isIdentChar c = true := by
  simp [isNamePart]

theorem isNamePart_of_isIdentifier {s : String} (h : isIdentifier s = true) :
    isNamePart s = true := by
  refine isNamePart_iff.2 ⟨?_, isIdentChar_of_isIdentifier h⟩
  intro hNil
  simp [isIdentifier, hNil] at h

/-- Characters of identifiers go on with a word. -/
theorem tokensFrom_word {chars : List Char} (h : ∀ c ∈ chars, isIdentChar c = true)
    (word rest : List Char) :
    tokensFrom word (chars ++ rest) = tokensFrom (word ++ chars) rest := by
  induction chars generalizing word with
  | nil => simp
  | cons c cs ih =>
      have hFirst : isIdentChar c = true := h c (.head cs)
      have hStep : tokensFrom word (c :: (cs ++ rest)) = tokensFrom (word ++ [c]) (cs ++ rest) := by
        rw [tokensFrom, if_pos hFirst]
        rintro _ rfl
        cases hFirst
      rw [List.cons_append, hStep, ih fun c' hc' => h c' (.tail c hc')]
      simp

theorem tokensFrom_pasting (word cs : List Char) :
    tokensFrom word ('#' :: '#' :: cs) = ending word (.pasting :: tokensFrom [] cs) := rfl

theorem tokensFrom_blank (word cs : List Char) :
    tokensFrom word (' ' :: cs) = ending word (tokensFrom [] cs) := rfl

theorem tokensFrom_comma (word cs : List Char) :
    tokensFrom word (',' :: cs) = ending word (.text "," :: tokensFrom [] cs) := rfl

theorem tokensFrom_opening (word cs : List Char) :
    tokensFrom word ('(' :: cs) = ending word (.text "(" :: tokensFrom [] cs) := rfl

theorem tokensFrom_closing (word cs : List Char) :
    tokensFrom word (')' :: cs) = ending word (.text ")" :: tokensFrom [] cs) := rfl

/-- Tokens of words with something between them, the first of which is at its end. -/
theorem tokensFrom_separated (separator rest : List Char) (between tail : List Token)
    (hSeparator : ∀ word cs, word ≠ [] →
      tokensFrom word (separator ++ cs) = .text (.ofList word) :: (between ++ tokensFrom [] cs))
    (hRest : ∀ word, word ≠ [] → tokensFrom word rest = .text (.ofList word) :: tail)
    {words : List String} (hWords : ∀ w ∈ words, isNamePart w = true) {word : List Char}
    (hWord : word ≠ []) :
    tokensFrom word (words.flatMap (separator ++ ·.toList) ++ rest) =
      .text (.ofList word) :: (words.flatMap (between ++ [.text ·]) ++ tail) := by
  induction words generalizing word with
  | nil => exact hRest word hWord
  | cons w ws ih =>
      obtain ⟨hNe, hChars⟩ := isNamePart_iff.1 (hWords w (.head ws))
      have hNext := ih (fun w' hw' => hWords w' (.tail w hw')) hNe
      rw [List.flatMap_cons, List.append_assoc, List.append_assoc, hSeparator _ _ hWord,
        tokensFrom_word hChars, List.nil_append, hNext, String.ofList_toList]
      simp

theorem intercalate_cons_eq_flatMap (separator first : List Char) (rest : List (List Char)) :
    separator.intercalate (first :: rest) = first ++ rest.flatMap (separator ++ ·) := by
  induction rest generalizing first with
  | nil => simp
  | cons next rest ih => rw [List.intercalate_cons_cons, ih]; simp

theorem toList_intercalate_cons (separator first : String) (rest : List String) :
    (separator.intercalate (first :: rest)).toList =
      first.toList ++ rest.flatMap (separator.toList ++ ·.toList) := by
  rw [String.toList_intercalate, List.map_cons, intercalate_cons_eq_flatMap, List.flatMap_map]

/-- A character between separators stands in a part or in a separator. -/
theorem mem_intercalate {c : Char} {separator : String} {parts : List String}
    (h : c ∈ (separator.intercalate parts).toList) :
    c ∈ separator.toList ∨ ∃ part ∈ parts, c ∈ part.toList := by
  induction parts with
  | nil => simp at h
  | cons part rest ih =>
      cases rest with
      | nil => exact .inr ⟨part, by simp, by simpa using h⟩
      | cons next rest =>
          rw [String.intercalate_cons_cons, String.toList_append, String.toList_append,
            List.mem_append, List.mem_append] at h
          rcases h with (hPart | hSeparator) | hRest
          · exact .inr ⟨part, by simp, hPart⟩
          · exact .inl hSeparator
          · rcases ih hRest with hSeparator | ⟨other, hOther, hMem⟩
            · exact .inl hSeparator
            · exact .inr ⟨other, List.mem_cons_of_mem _ hOther, hMem⟩

/-- A character that is neither in the separator nor in a part is not in the parts between
separators. -/
theorem notMem_intercalate {c : Char} {separator : String} {parts : List String}
    (hSeparator : c ∉ separator.toList) (hParts : ∀ part ∈ parts, c ∉ part.toList) :
    c ∉ (separator.intercalate parts).toList := by
  intro h
  rcases mem_intercalate h with hIn | ⟨part, hPart, hIn⟩
  · exact hSeparator hIn
  · exact hParts part hPart hIn

theorem trim_word {blanks : List Char} (hBlanks : Blank blanks) {s : String}
    (h : isIdentifier s = true) : trim (.ofList (blanks ++ s.toList)) = s := by
  rw [trim_blank_append hBlanks, String.ofList_toList]
  exact trim_of_solid fun c hc => isBlank_of_isIdentChar (isIdentChar_of_isIdentifier h c hc)

/-- A list of distinct identifiers with commas is read as the parameters it lists. -/
theorem readParams?_intercalate {params : List String} (hNe : params ≠ [])
    (hParams : ∀ p ∈ params, isIdentifier p = true) (hNodup : params.Nodup) :
    readParams? (", ".intercalate params).toList = some params := by
  obtain ⟨p, ps, rfl⟩ := List.exists_cons_of_ne_nil hNe
  have hText : (", ".intercalate (p :: ps)).toList =
      [','].intercalate (p.toList :: ps.map (' ' :: ·.toList)) := by
    rw [toList_intercalate_cons, intercalate_cons_eq_flatMap, List.flatMap_map]
    rfl
  have hNoComma : ∀ q ∈ p :: ps, ',' ∉ q.toList :=
    fun q hq => notMem_of_isIdentifier (hParams q hq) rfl
  have hSplit : (", ".intercalate (p :: ps)).toList.splitOn ',' =
      p.toList :: ps.map (' ' :: ·.toList) := by
    rw [hText]
    apply List.splitOn_intercalate _ _ (by simp)
    simp only [List.mem_cons, List.mem_map]
    rintro _ (rfl | ⟨q, hq, rfl⟩)
    · exact hNoComma p (.head ps)
    · simpa using hNoComma q (.tail p hq)
  have hBlank : (", ".intercalate (p :: ps)).toList.all isBlank = false := by
    obtain ⟨hFirst, hChars⟩ := isNamePart_iff.1 (isNamePart_of_isIdentifier (hParams p (.head ps)))
    obtain ⟨c, cs, hCons⟩ := List.exists_cons_of_ne_nil hFirst
    have hSolid : isBlank c = false := isBlank_of_isIdentChar (hChars c (by simp [hCons]))
    simp [hCons, hSolid]
  have hNames : (p.toList :: ps.map (' ' :: ·.toList)).map (fun part => trim (.ofList part)) =
      p :: ps := by
    have hFirst : trim (.ofList p.toList) = p := trim_word blank_nil (hParams p (.head ps))
    have hRest : ∀ q ∈ ps, trim (.ofList (' ' :: q.toList)) = q :=
      fun q hq => trim_word (List.forall_mem_singleton.2 rfl) (hParams q (.tail p hq))
    rw [List.map_cons, List.map_map, hFirst]
    congr 1
    exact List.map_congr_left hRest |>.trans (List.map_id ps)
  unfold readParams?
  rw [hBlank, hSplit, if_neg Bool.false_ne_true]
  simp only [hNames]
  rw [if_pos (by simpa [hNodup] using hParams)]

/-- How a definition starts: the name, and the parameters if there are any. -/
def signature (name : String) (params : Option (List String)) : String :=
  params.elim name fun params => name ++ "(" ++ ", ".intercalate params ++ ")"

/-- A definition is read as it is written. -/
theorem Macro.read?_definition {name : String} {params : Option (List String)}
    (hName : isIdentifier name = true)
    (hParams : ∀ ps ∈ params, ps ≠ [] ∧ (∀ p ∈ ps, isIdentifier p = true) ∧ ps.Nodup)
    {tail : List Char} (hTail : ∀ c ∈ tail.head?, c = ' ') {line : String}
    (hLine : line.toList = "#define ".toList ++ ((signature name params).toList ++ tail)) :
    Macro.read? line = some ⟨name, params, tail⟩ := by
  have hChars := isIdentChar_of_isIdentifier hName
  have hEnd : ∀ cs : List Char, (∀ c ∈ cs.head?, isIdentChar c = false) →
      (name.toList ++ cs).takeWhile isIdentChar = name.toList ∧
        (name.toList ++ cs).dropWhile isIdentChar = cs := by
    intro cs hcs
    rw [List.takeWhile_append_of_pos hChars, List.dropWhile_append_of_pos hChars]
    cases cs with
    | nil => simp
    | cons c cs => simp [hcs c rfl]
  unfold read?
  rw [hLine, if_pos (by simp), List.drop_left]
  cases params with
  | none =>
      obtain ⟨hTake, hDrop⟩ := hEnd tail fun c hc => by rw [hTail c hc]; decide
      show readFrom? (name.toList ++ tail) = _
      unfold readFrom?
      rw [hTake, hDrop, String.ofList_toList, if_pos hName]
      cases tail with
      | nil => rfl
      | cons c cs =>
          obtain rfl := hTail c rfl
          rfl
  | some params =>
      obtain ⟨hNe, hIdent, hNodup⟩ := hParams params rfl
      have hText : (signature name (some params)).toList ++ tail =
          name.toList ++ '(' :: ((", ".intercalate params).toList ++ ')' :: tail) := by
        simp [signature]
      obtain ⟨hTake, hDrop⟩ := hEnd ('(' :: ((", ".intercalate params).toList ++ ')' :: tail))
        (by rintro _ ⟨⟩; decide)
      have hClosing : ')' ∉ (", ".intercalate params).toList :=
        notMem_intercalate (by decide) fun p hp => notMem_of_isIdentifier (hIdent p hp) rfl
      have hInside : ∀ c ∈ (", ".intercalate params).toList, (c != ')') = true := by
        intro c hc
        rw [bne_iff_ne]
        rintro rfl
        exact hClosing hc
      rw [hText]
      unfold readFrom?
      rw [hTake, hDrop, String.ofList_toList, if_pos hName]
      simp only [List.takeWhile_append_of_pos hInside, List.dropWhile_append_of_pos hInside,
        List.takeWhile_cons, List.dropWhile_cons, bne_self_eq_false, Bool.false_eq_true, if_false,
        List.append_nil, readParams?_intercalate hNe hIdent hNodup, Option.map_some, List.tail_cons]

/-- Parts of names can be put behind one another. -/
theorem isNamePart_append {s t : String} (hs : isNamePart s = true) (ht : isNamePart t = true) :
    isNamePart (s ++ t) = true := by
  rw [isNamePart_iff] at hs ht ⊢
  rw [String.toList_append]
  refine ⟨by simp [hs.1], fun c hc => ?_⟩
  exact (List.mem_append.1 hc).elim (hs.2 c) (ht.2 c)

theorem pasteOnto_texts (left : String) (texts : List String) :
    pasteOnto left (texts.map .text) = some (left :: texts) := by
  induction texts generalizing left with
  | nil => rfl
  | cons t ts ih => simp [pasteOnto, ih]

/-- Parts that are pasted to what is before them, and texts behind them. -/
def pastings (parts texts : List String) : List Token :=
  (parts.flatMap fun part => [.pasting, .text part]) ++ texts.map .text

/-- Substitution replaces the parameters that are pasted together, each by the text of its
argument. -/
theorem map_pastings (binding : List (String × String)) (parts texts : List String) :
    (pastings parts texts).map (Token.substitute binding) =
      pastings (parts.map (valueOf binding)) (texts.map (valueOf binding)) := by
  simp [pastings, List.map_flatMap, List.flatMap_map, Token.substitute, Function.comp_def]

/-- Parts of names that are pasted one behind the other make one name. -/
theorem pasteOnto_pastings {left : String} (hLeft : isNamePart left = true) {parts : List String}
    (hParts : ∀ part ∈ parts, isNamePart part = true) (texts : List String) :
    pasteOnto left (pastings parts texts) = some ((left ++ String.join parts) :: texts) := by
  induction parts generalizing left with
  | nil => simpa [pastings] using pasteOnto_texts left texts
  | cons part rest ih =>
      have hPasted := isNamePart_append hLeft (hParts part (.head rest))
      have hSplit : pastings (part :: rest) texts =
          .pasting :: .text part :: pastings rest texts := rfl
      rw [hSplit, pasteOnto, if_pos hPasted, ih hPasted fun p hp => hParts p (.tail part hp)]
      simp [String.append_assoc]

/-- Parts with a separator in front of each but the first are the parts between separators. -/
theorem join_flatMap_eq_intercalate (separator first : String) (rest : List String) :
    String.join (first :: rest.flatMap fun part => [separator, part]) =
      separator.intercalate (first :: rest) := by
  induction rest generalizing first with
  | nil => simp
  | cons next rest ih =>
      rw [String.intercalate_cons_cons, ← ih]
      simp [String.append_assoc]

end Metagen.Preprocessing
