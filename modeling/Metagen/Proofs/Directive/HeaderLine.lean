import Metagen.Proofs.Directive.Marks
import Metagen.Proofs.Directive.Preamble

/-! The language of header lines. Behind its mark a header line says nothing, or names a kind and
lists names between commas, each of which can be the name of a global in a script. -/

namespace Metagen

open Text
open Script (Keyword)

/-- A name that a header may list: a word of scripts that is not reserved and is not the name of the
generator. -/
structure Declarable (name : String) : Prop where
  word : Script.Scan.IsWord name.toList
  unreserved : ∀ keyword : Keyword, keyword.spelling ≠ name
  ne_generator : name ≠ "Meta"

/-- Names between commas, with blank characters around them. -/
inductive Listed : List Char → List String → Prop where
  | last {before behind : List Char} {name : String} (hBefore : Blank before)
      (hName : Declarable name) (hBehind : Blank behind) :
      Listed (before ++ (name.toList ++ behind)) [name]
  | next {before behind rest : List Char} {name : String} {names : List String}
      (hBefore : Blank before) (hName : Declarable name) (hBehind : Blank behind)
      (hRest : Listed rest names) :
      Listed (before ++ (name.toList ++ behind) ++ ',' :: rest) (name :: names)

/-- What stands behind the mark of a header line, with what it declares. -/
inductive HeaderText (text : List Char) : List (DeclKind × String) → Prop where
  | nothing (h : Blank text) : HeaderText text []
  | names {kind : DeclKind} {rest : List Char} {names : List String}
      (hKind : kind ∈ [.exports, .imports, .global]) (hWord : FirstWord text kind.word rest)
      (hNames : Listed rest names) : HeaderText text (names.map (kind, ·))

theorem Script.Keyword.ofSpelling?_eq_none_iff {name : String} :
    Keyword.ofSpelling? name = none ↔ ∀ keyword : Keyword, keyword.spelling ≠ name := by
  have hAll : ∀ keyword : Keyword, keyword ∈ Keyword.all := by
    intro keyword
    cases keyword <;> decide
  simp [Keyword.ofSpelling?, hAll]

/-- The test for identifiers passes exactly the words of scripts, reserved ones among them. -/
theorem isIdentifier_iff {name : String} :
    isIdentifier name = true ↔ Script.Scan.IsWord name.toList := by
  unfold isIdentifier Script.Scan.IsWord
  cases name.toList with
  | nil => simp
  | cons first others => simp

namespace Declarable

variable {name : String}

/-- What a header may declare can be declared global in a script. -/
theorem isGlobalName (h : Declarable name) : Script.Scan.IsGlobalName name :=
  ⟨h.word, Keyword.ofSpelling?_eq_none_iff.2 h.unreserved⟩

theorem ne_nil (h : Declarable name) : name.toList ≠ [] := by
  obtain ⟨first, others, hName, -⟩ := h.word
  rw [hName]
  exact List.cons_ne_nil _ _

theorem solid (h : Declarable name) : ∀ c ∈ name.toList, isBlank c = false :=
  fun c hc => isBlank_of_isIdentChar (h.word.all c hc)

theorem comma_notMem (h : Declarable name) : ',' ∉ name.toList := by
  intro hComma
  have hChar := h.word.all ',' hComma
  cases hChar

/-- Blank characters around a name are trimmed off. -/
theorem trim_eq (h : Declarable name) {before behind : List Char} (hBefore : Blank before)
    (hBehind : Blank behind) :
    trim (.ofList (before ++ (name.toList ++ behind))) = name := by
  rw [trim_blank_append hBefore, trim_append_blank hBehind, String.ofList_toList,
    trim_of_solid h.solid]

end Declarable

namespace Header

/-- The names that no fault is found in are those that can be declared. -/
theorem nameFault?_eq_none_iff {name : String} : nameFault? name = none ↔ Declarable name := by
  have hParts : nameFault? name = none ↔ isIdentifier name = true ∧ name ≠ reservedName ∧
      Keyword.ofSpelling? name = none := by
    unfold nameFault?
    split
    next hNot =>
      rw [Bool.not_eq_true'] at hNot
      simp [hNot]
    next hIdentifier =>
      simp only [Bool.not_eq_true', Bool.not_eq_false] at hIdentifier
      split
      next hReserved =>
        simp only [Bool.or_eq_true, beq_iff_eq, Option.isSome_iff_ne_none] at hReserved
        refine iff_of_false nofun fun hFree => ?_
        exact hReserved.elim hFree.2.1 (absurd hFree.2.2)
      next hFree =>
        simp only [Bool.or_eq_true, beq_iff_eq, not_or, Bool.not_eq_true,
          Option.isSome_eq_false_iff, Option.isNone_iff_eq_none] at hFree
        exact iff_of_true rfl ⟨hIdentifier, hFree⟩
  rw [hParts, isIdentifier_iff, Keyword.ofSpelling?_eq_none_iff]
  exact ⟨fun ⟨hWord, hGenerator, hFree⟩ => ⟨hWord, hFree, hGenerator⟩,
    fun h => ⟨h.word, h.ne_generator, h.unreserved⟩⟩

/-- What stands between the commas of a text. -/
theorem splitAtFrom_comma (done : List (List Char)) (piece cs : List Char) :
    splitAtFrom [','] done piece 0 cs =
      done.reverse ++ (cs.splitOn ',').modifyHead (piece.reverse ++ ·) := by
  induction cs generalizing done piece with
  | nil => simp [splitAtFrom]
  | cons c cs ih =>
      obtain ⟨first, others, hSplit⟩ := List.exists_cons_of_ne_nil (List.splitOn_ne_nil ',' cs)
      by_cases hComma : c = ','
      · subst hComma
        simp [splitAtFrom, ih, List.splitOn_cons_eq_if_modifyHead, hSplit]
      · simp [splitAtFrom, ih, List.splitOn_cons_eq_if_modifyHead, hSplit, hComma, Ne.symm hComma]

/-- The trimmed parts of a text between its commas. -/
def listedNames (cs : List Char) : List String :=
  (cs.splitOn ',').map fun part => trim (.ofList part)

/-- Splitting a text at its commas and trimming the parts gives the names that the list is said to
have. -/
theorem map_trim_splitAt (cs : List Char) :
    (splitAt "," (.ofList cs)).map trim = listedNames cs := by
  unfold splitAt listedNames
  rw [show ",".toList = [','] from rfl, String.toList_ofList, splitAtFrom_comma, List.map_map]
  obtain ⟨first, others, hSplit⟩ := List.exists_cons_of_ne_nil (List.splitOn_ne_nil ',' cs)
  rw [hSplit]
  rfl

/-- A text has no comma, or starts with a part that has none and goes on behind a comma. -/
theorem comma_induction {motive : List Char → Prop}
    (last : ∀ part, ',' ∉ part → motive part)
    (next : ∀ part rest, ',' ∉ part → motive rest → motive (part ++ ',' :: rest))
    (cs : List Char) : motive cs := by
  by_cases hComma : ',' ∈ cs
  · obtain ⟨part, rest, hText, hPart⟩ := List.eq_append_cons_of_mem hComma
    have hShorter : rest.length < cs.length := by
      rw [hText, List.length_append, List.length_cons]
      omega
    exact hText ▸ next part rest hPart (comma_induction last next rest)
  · exact last cs hComma
termination_by cs.length

theorem listedNames_last {part : List Char} (h : ',' ∉ part) :
    listedNames part = [trim (.ofList part)] := by
  rw [listedNames, List.splitOn_eq_singleton h, List.map_singleton]

/-- The first comma ends the first name of a list, which counts without the blank characters around
it. -/
theorem listedNames_next {part : List Char} (h : ',' ∉ part) (rest : List Char) :
    listedNames (part ++ ',' :: rest) = trim (.ofList part) :: listedNames rest := by
  have hSolid : ∀ c ∈ part, (c == ',') = false := by
    intro c hc
    rw [beq_eq_false_iff_ne]
    rintro rfl
    exact h hc
  have hSplit : (part ++ ',' :: rest).splitOn ',' = part :: rest.splitOn ',' :=
    List.splitOnP_append_cons_of_forall_mem hSolid ',' rfl rest
  rw [listedNames, hSplit]
  rfl

theorem comma_notMem_of_blank {blanks : List Char} (h : Blank blanks) : ',' ∉ blanks :=
  fun hComma => absurd (h ',' hComma) (by decide)

/-- Blank characters behind a list of names change none of the names. -/
theorem listedNames_append_blank {blanks : List Char} (h : Blank blanks) (cs : List Char) :
    listedNames (cs ++ blanks) = listedNames cs := by
  induction cs using comma_induction with
  | last part hPart =>
      have hBoth : ',' ∉ part ++ blanks := by
        rw [List.mem_append, not_or]
        exact ⟨hPart, comma_notMem_of_blank h⟩
      rw [listedNames_last hBoth, listedNames_last hPart, trim_append_blank h]
  | next part rest hPart ih =>
      rw [List.append_assoc, List.cons_append, listedNames_next hPart, listedNames_next hPart, ih]

theorem listedNames_dropTrailing (cs : List Char) :
    listedNames (dropTrailing isBlank cs) = listedNames cs := by
  obtain ⟨behind, hBehind, hText⟩ := exists_dropTrailing cs
  conv_rhs => rw [hText]
  rw [listedNames_append_blank hBehind]

/-- A name with blank characters around it holds no comma. -/
theorem comma_notMem_around {name : String} (hName : Declarable name) {before behind : List Char}
    (hBefore : Blank before) (hBehind : Blank behind) :
    ',' ∉ before ++ (name.toList ++ behind) := by
  simp only [List.mem_append, not_or]
  exact ⟨comma_notMem_of_blank hBefore, hName.comma_notMem, comma_notMem_of_blank hBehind⟩

/-- A text lists the names between its commas if these can be declared. -/
theorem listed_iff {cs : List Char} {names : List String} :
    Listed cs names ↔ listedNames cs = names ∧ ∀ name ∈ names, Declarable name := by
  constructor
  · intro h
    induction h with
    | last hBefore hName hBehind =>
        have hComma := comma_notMem_around hName hBefore hBehind
        rw [listedNames_last hComma, hName.trim_eq hBefore hBehind]
        exact ⟨rfl, List.forall_mem_singleton.2 hName⟩
    | next hBefore hName hBehind _ ih =>
        have hComma := comma_notMem_around hName hBefore hBehind
        rw [listedNames_next hComma, hName.trim_eq hBefore hBehind, ih.1]
        exact ⟨rfl, List.forall_mem_cons.2 ⟨hName, ih.2⟩⟩
  · rintro ⟨rfl, hNames⟩
    induction cs using comma_induction with
    | last part hPart =>
        rw [listedNames_last hPart] at hNames ⊢
        obtain ⟨before, behind, hBefore, hBehind, hText⟩ := exists_trim (.ofList part)
        rw [String.toList_ofList] at hText
        have hListed := Listed.last hBefore (List.forall_mem_singleton.1 hNames) hBehind
        rwa [← hText] at hListed
    | next part rest hPart ih =>
        rw [listedNames_next hPart] at hNames ⊢
        obtain ⟨hName, hRest⟩ := List.forall_mem_cons.1 hNames
        obtain ⟨before, behind, hBefore, hBehind, hText⟩ := exists_trim (.ofList part)
        rw [String.toList_ofList] at hText
        have hListed := Listed.next hBefore hName hBehind (ih hRest)
        rwa [← hText] at hListed

/-- Blank text lists nothing. -/
theorem not_listed_of_blank {cs : List Char} (h : Blank cs) (names : List String) :
    ¬ Listed cs names := by
  intro hListed
  obtain ⟨rfl, hNames⟩ := listed_iff.1 hListed
  rw [listedNames_last (comma_notMem_of_blank h), List.forall_mem_singleton] at hNames
  refine hNames.ne_nil ?_
  rw [trim_of_blank (by rwa [String.toList_ofList])]
  rfl

section

variable {remainder word : String} {rest : List Char} {decls : List (DeclKind × String)}

theorem parse_of_blank (h : Blank remainder.toList) : parse remainder = .ok [] := by
  simp [parse, trim_of_blank h]

/-- A line that says something is read from its first word on. -/
theorem parse_of_firstWord (h : FirstWord remainder.toList word rest) :
    parse remainder = (DeclKind.ofHeader? word).elim (.error (.unknownKind word)) fun kind =>
      if isAllBlank (.ofList rest) then .error (.noNames kind)
      else ((listedNames rest).findSome? nameFault?).elim
        (.ok ((listedNames rest).map (kind, ·))) .error := by
  obtain ⟨hText, hTrimmed⟩ := h.toList_trim
  have hSome : (trim remainder).isEmpty = false := by
    rw [← Bool.not_eq_true, String.isEmpty_iff]
    intro hNone
    rw [hNone] at hTrimmed
    exact hTrimmed.not_blank blank_nil
  have hBlank : isAllBlank (.ofList (dropTrailing isBlank rest)) = isAllBlank (.ofList rest) := by
    obtain ⟨behind, hBehind, hRest⟩ := exists_dropTrailing rest
    conv_rhs => rw [hRest]
    rw [Bool.eq_iff_iff, isAllBlank_iff, isAllBlank_iff, String.toList_ofList,
      String.toList_ofList, blank_append_iff, and_iff_left hBehind]
  unfold parse
  dsimp only
  rw [hText, hTrimmed.takeWhile_eq.1, hTrimmed.takeWhile_eq.2, String.ofList_toList, hSome,
    map_trim_splitAt, listedNames_dropTrailing, hBlank, if_neg Bool.false_ne_true]
  cases DeclKind.ofHeader? word with
  | none => rfl
  | some kind => cases (listedNames rest).findSome? nameFault? <;> rfl

/-- A header is read as its first word says: the word must be a kind, and what follows must be a
list of good names. -/
theorem parse_eq_ok_of_firstWord (h : FirstWord remainder.toList word rest) :
    parse remainder = .ok decls ↔ ∃ kind, DeclKind.ofHeader? word = some kind ∧
      Listed rest (listedNames rest) ∧ (listedNames rest).map (kind, ·) = decls := by
  rw [parse_of_firstWord h]
  cases DeclKind.ofHeader? word with
  | none => simp
  | some kind =>
      simp only [Option.elim_some, Option.some.injEq, exists_eq_left']
      split
      next hBlank =>
        rw [isAllBlank_iff, String.toList_ofList] at hBlank
        exact iff_of_false nofun fun hNames => not_listed_of_blank hBlank _ hNames.1
      next =>
        have hListed : Listed rest (listedNames rest) ↔
            (listedNames rest).findSome? nameFault? = none := by
          rw [listed_iff, and_iff_right rfl, List.findSome?_eq_none_iff]
          simp only [nameFault?_eq_none_iff]
        rw [hListed]
        cases (listedNames rest).findSome? nameFault? <;> simp

end

/-- What a header line may say, and what it then declares. -/
theorem parse_eq_ok_iff {remainder : String} {decls : List (DeclKind × String)} :
    parse remainder = .ok decls ↔ HeaderText remainder.toList decls := by
  rcases blank_or_firstWord remainder.toList with hBlank | ⟨word, rest, hWord⟩
  · rw [parse_of_blank hBlank]
    constructor
    · rintro ⟨⟩
      exact .nothing hBlank
    · intro h
      cases h with
      | nothing => rfl
      | names _ hWord _ => exact (hWord.not_blank hBlank).elim
  · rw [parse_eq_ok_of_firstWord hWord]
    constructor
    · rintro ⟨kind, hKind, hNames, rfl⟩
      obtain ⟨hMem, rfl⟩ := DeclKind.ofHeader?_eq_some_iff.1 hKind
      exact .names hMem hWord hNames
    · intro h
      cases h with
      | nothing hBlank => exact (hWord.not_blank hBlank).elim
      | names hMem hKindWord hNames =>
          obtain ⟨rfl, rfl⟩ := hKindWord.unique hWord
          obtain ⟨rfl, -⟩ := listed_iff.1 hNames
          exact ⟨_, DeclKind.ofHeader?_eq_some_iff.2 ⟨hMem, rfl⟩, hNames, rfl⟩

end Header

end Metagen
