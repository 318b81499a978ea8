import Metagen.Proofs.Directive.Lines
import Metagen.Proofs.Text.Words

/-! The lines of directives, told by how they are written: blank characters, marks, and what follows
them. A line opens a header, goes on with one, names a generated file, or ends a comment; and a
line of a script is shown without the blank characters around it. -/

namespace Metagen

open Text

/-- The number sign and the word that make a header, and what follows the word. -/
def HeaderMark (cs : List Char) (remainder : String) : Prop :=
  ∃ sign, Marked "#" cs sign ∧ Marked "meta" sign remainder.toList ∧
    ∀ c ∈ remainder.toList.head?, Header.isWordChar c = false

/-- The first line of a header, at the beginning of a comment. -/
def FirstHeader (line remainder : String) : Prop :=
  ∃ opened, Marked "/*" line.toList opened ∧ HeaderMark opened remainder

/-- The comment ends on this line. -/
def EndsComment (line : String) : Prop := "*/".toList <:+: line.toList

/-- The line up to where the comment ends for the first time, or all of it. -/
inductive UpToEnd (line : String) : String → Prop where
  | ended {before : String} (h : before.toList ++ "*/".toList <+: line.toList)
      (hFirst : ∀ shorter, shorter ++ "*/".toList <+: line.toList →
        before.toList.length ≤ shorter.length) : UpToEnd line before
  | whole (h : ¬ EndsComment line) : UpToEnd line line

/-- Nothing, or a kind of declarations with blank characters around it. -/
def NamesKind (text : List Char) : Prop :=
  Blank text ∨ ∃ kind ∈ [DeclKind.exports, .imports, .global], ∃ rest,
    Marked kind.word text rest ∧ ∀ c ∈ rest.head?, isBlank c = true

/-- A header line below the first one. -/
def LaterHeader (line remainder : String) : Prop :=
  (FirstHeader line remainder ∨ HeaderMark line.toList remainder) ∧
    ∃ text, UpToEnd remainder text ∧ NamesKind text.toList

/-- A line that names a file: the number sign, the word, and the target between its marks. -/
def NamesFile (cs : List Char) (target : String) : Prop :=
  ∃ sign, Marked "#" cs sign ∧ ∃ word, Marked "include" sign word ∧
    ∃ first last, (first, last) ∈ [("\"", '"'), ("<", '>')] ∧
      ∃ rest, Marked first word (target.toList ++ last :: rest) ∧
        target ≠ "" ∧ last ∉ target.toList

/-- A line that names a generated file, perhaps commented out. -/
def IncludeLine (line target : String) : Prop :=
  ∃ start, (Marked "//" line.toList start ∨ start = line.toList) ∧ NamesFile start target

/-- A line of a script as it stands in its source, up to the end of the comment: without some of the
blank characters before it, and without those behind it. -/
def ShownAs (line shown : String) : Prop :=
  ∃ text, UpToEnd line text ∧ ∃ before behind, Blank before ∧ Blank behind ∧
    text.toList = before ++ (shown.toList ++ behind) ∧
    ∀ c ∈ shown.toList.getLast?, isBlank c = false

variable {cs rest : List Char} {line text remainder : String} {mark : String}

namespace Header

/-- The text begins with the given characters, and the rest is what follows them. -/
theorem after?_eq_some_iff {beginning : String} :
    after? beginning cs = some rest ↔ cs = beginning.toList ++ rest := by
  unfold after?
  constructor
  · intro h
    split at h
    next hPrefix =>
      obtain ⟨more, rfl⟩ := List.isPrefixOf_iff_prefix.1 hPrefix
      rw [← String.length_toList, List.drop_left] at h
      rw [Option.some.inj h]
    · cases h
  · rintro rfl
    rw [if_pos (List.isPrefixOf_iff_prefix.2 (List.prefix_append _ _)), ← String.length_toList,
      List.drop_left]

/-- A mark that starts with no blank character stands where the blank characters end. -/
theorem marked_iff {c : Char} (hMark : mark.toList.head? = some c) (hSolid : isBlank c = false) :
    Marked mark cs rest ↔ afterBlanks cs = mark.toList ++ rest := by
  rw [afterBlanks]
  constructor
  · rintro ⟨blanks, hBlanks, rfl⟩
    obtain ⟨others, hOthers⟩ := List.head?_eq_some_iff.1 hMark
    rw [dropWhile_of_blank hBlanks, hOthers, List.cons_append, dropWhile_cons_of_solid hSolid]
  · intro h
    refine ⟨cs.takeWhile isBlank, blank_takeWhile cs, ?_⟩
    rw [← h, List.takeWhile_append_dropWhile]

theorem after?_afterBlanks_iff {c : Char} (hMark : mark.toList.head? = some c)
    (hSolid : isBlank c = false) :
    after? mark (afterBlanks cs) = some rest ↔ Marked mark cs rest := by
  rw [after?_eq_some_iff, marked_iff hMark hSolid]

/-- A sign and a word stand in front, each after blank characters, and what follows them is
returned. -/
theorem afterSignAndWord?_eq_some_iff {word : String} {c : Char}
    (hWord : word.toList.head? = some c) (hSolid : isBlank c = false) :
    afterSignAndWord? word cs = some rest ↔
      ∃ sign, Marked "#" cs sign ∧ Marked word sign rest := by
  unfold afterSignAndWord?
  rw [Option.bind_eq_bind, Option.bind_eq_some_iff]
  simp only [after?_afterBlanks_iff (show "#".toList.head? = some '#' from rfl) (by decide),
    after?_afterBlanks_iff hWord hSolid]

/-- The mark ends where its word does. -/
theorem afterMark?_eq_some_iff : afterMark? cs = some remainder ↔ HeaderMark cs remainder := by
  unfold afterMark?
  rw [Option.bind_eq_bind, Option.bind_eq_some_iff]
  simp only [afterSignAndWord?_eq_some_iff (show "meta".toList.head? = some 'm' from rfl)
    (by decide)]
  constructor
  · rintro ⟨rest, ⟨sign, hSign, hMeta⟩, hStop⟩
    cases rest with
    | nil =>
        cases hStop
        exact ⟨sign, hSign, hMeta, by simp⟩
    | cons c others =>
        dsimp only at hStop
        split at hStop
        · cases hStop
        next hWord =>
          cases hStop
          refine ⟨sign, hSign, ?_, ?_⟩
          · rwa [String.toList_ofList]
          · simpa using hWord
  · rintro ⟨sign, hSign, hMeta, hStop⟩
    refine ⟨remainder.toList, ⟨sign, hSign, hMeta⟩, ?_⟩
    cases hRest : remainder.toList with
    | nil => rw [String.toList_eq_nil_iff.1 hRest]
    | cons c others =>
        rw [hRest] at hStop
        dsimp only
        rw [if_neg (by simpa using hStop), ← hRest, String.ofList_toList]

/-- A line of a host file starts a header exactly if it is written as a first header line. -/
theorem first?_host_iff : first? .host line = some remainder ↔ FirstHeader line remainder := by
  change afterCommentMark? line = _ ↔ _
  unfold afterCommentMark?
  rw [Option.bind_eq_bind, Option.bind_eq_some_iff]
  simp only [after?_afterBlanks_iff (show "/*".toList.head? = some '/' from rfl) (by decide),
    afterMark?_eq_some_iff]
  rfl

/-- Where a text is not cut at a part, the part occurs nowhere in it. -/
theorem cutAtFrom_eq_none {part passed : List Char} (h : cutAtFrom part passed cs = none) :
    ¬ part <:+: cs := by
  induction cs generalizing passed with
  | nil =>
      unfold cutAtFrom at h
      split at h
      · cases h
      next hPart =>
        rintro hInfix
        exact hPart (by simpa using hInfix)
  | cons c cs ih =>
      unfold cutAtFrom at h
      split at h
      · cases h
      next hPart =>
        intro hInfix
        rcases List.infix_cons_iff.1 hInfix with hPrefix | hLater
        · exact hPart (List.isPrefixOf_iff_prefix.2 hPrefix)
        · exact ih h hLater

/-- A text is cut at the first occurrence. -/
theorem cutAtFrom_eq_some {part passed before after : List Char}
    (h : cutAtFrom part passed cs = some (before, after)) :
    ∃ more, before = passed.reverse ++ more ∧ more ++ part <+: cs ∧
      ∀ shorter, shorter ++ part <+: cs → more.length ≤ shorter.length := by
  induction cs generalizing passed with
  | nil =>
      unfold cutAtFrom at h
      split at h
      next hPart =>
        cases h
        refine ⟨[], (List.append_nil _).symm, ?_, fun _ _ => Nat.zero_le _⟩
        rw [List.isEmpty_iff.1 hPart]
        exact List.prefix_rfl
      · cases h
  | cons c cs ih =>
      unfold cutAtFrom at h
      split at h
      next hPart =>
        cases h
        exact ⟨[], (List.append_nil _).symm, List.isPrefixOf_iff_prefix.1 hPart,
          fun _ _ => Nat.zero_le _⟩
      next hPart =>
        obtain ⟨more, rfl, hMore, hFirst⟩ := ih h
        refine ⟨c :: more, by simp, ?_, fun shorter hShorter => ?_⟩
        · exact List.cons_prefix_cons.2 ⟨rfl, hMore⟩
        · cases shorter with
          | nil => exact absurd (List.isPrefixOf_iff_prefix.2 hShorter) hPart
          | cons d shorter =>
              obtain ⟨rfl, hRest⟩ := List.cons_prefix_cons.1 hShorter
              exact Nat.succ_le_succ (hFirst shorter hRest)

/-- What is kept of a line is what stands before the end of the comment, or all of it if the comment
goes on. -/
theorem upToEnd_cutComment (text : String) : UpToEnd text (cutComment text).1 := by
  unfold cutComment
  cases hCut : cutAt "*/".toList text.toList with
  | none => exact .whole (cutAtFrom_eq_none hCut)
  | some cut =>
      obtain ⟨before, after⟩ := cut
      obtain ⟨more, rfl, hMore, hFirst⟩ := cutAtFrom_eq_some hCut
      refine .ended (String.toList_ofList ▸ hMore) fun shorter hShorter => ?_
      exact (congrArg List.length String.toList_ofList).trans_le (hFirst shorter hShorter)

/-- There is one way to cut a line. -/
theorem upToEnd_iff {before : String} : UpToEnd text before ↔ before = (cutComment text).1 := by
  constructor
  · intro h
    have hCut := upToEnd_cutComment text
    generalize (cutComment text).1 = cut at hCut ⊢
    have hNot : ∀ {part : String}, part.toList ++ "*/".toList <+: text.toList → EndsComment text :=
      fun hPart => (List.suffix_append _ _).isInfix.trans hPart.isInfix
    cases h with
    | ended h hFirst =>
        cases hCut with
        | ended h' hFirst' =>
            have hLength := Nat.le_antisymm (hFirst _ h') (hFirst' _ h)
            have hSame := List.prefix_of_prefix_length_le ((List.prefix_append _ _).trans h)
              ((List.prefix_append _ _).trans h') (Nat.le_of_eq hLength)
            exact String.toList_inj.1 (hSame.eq_of_length hLength)
        | whole h' => exact absurd (hNot h) h'
    | whole h =>
        cases hCut with
        | ended h' _ => exact absurd (hNot h') h
        | whole _ => rfl
  · rintro rfl
    exact upToEnd_cutComment text

/-- The test for closing lines holds exactly on lines that end the comment. -/
theorem closes_iff : closes text = true ↔ EndsComment text := by
  rw [closes_eq]
  constructor
  · intro h
    obtain ⟨⟨before, after⟩, hCut⟩ := Option.isSome_iff_exists.1 h
    obtain ⟨more, -, hMore, -⟩ := cutAtFrom_eq_some hCut
    exact (List.suffix_append _ _).isInfix.trans hMore.isInfix
  · intro h
    by_contra hNone
    exact cutAtFrom_eq_none (Option.not_isSome_iff_eq_none.1 hNone) h

end Header

/-- The words of kinds are words. -/
theorem DeclKind.solid_word (kind : DeclKind) :
    kind.word ≠ "" ∧ ∀ c ∈ kind.word.toList, isBlank c = false := by
  have hSolid : (kind.word.toList.all fun c => !isBlank c) = true := by
    cases kind <;> decide
  refine ⟨?_, by simpa using hSolid⟩
  cases kind <;> decide

/-- A word of a header stands for a kind exactly if it is one of the three words that headers may
have. -/
theorem DeclKind.ofHeader?_eq_some_iff {kind : DeclKind} {word : String} :
    DeclKind.ofHeader? word = some kind ↔
      kind ∈ [DeclKind.exports, .imports, .global] ∧ kind.word = word := by
  constructor
  · intro h
    exact ⟨List.mem_of_find?_eq_some h, by simpa using List.find?_some h⟩
  · rintro ⟨hKind, rfl⟩
    cases kind <;> first | rfl | simp at hKind

theorem DeclKind.isSome_ofHeader? {word : String} : (DeclKind.ofHeader? word).isSome = true ↔
    ∃ kind ∈ [DeclKind.exports, .imports, .global], kind.word = word := by
  simp only [Option.isSome_iff_exists, DeclKind.ofHeader?_eq_some_iff]

namespace Header

/-- A header goes on with the next line exactly if, up to the end of the comment, this one has
nothing more on it or a kind of declarations alone. -/
theorem continues_iff : continues remainder = true ↔
    ∃ text, UpToEnd remainder text ∧ NamesKind text.toList := by
  unfold continues
  simp only [upToEnd_iff, exists_eq_left]
  generalize (cutComment remainder).1 = text
  rcases blank_or_firstWord text.toList with hBlank | ⟨word, rest, hWord⟩
  · rw [words_head?_of_blank hBlank]
    exact iff_of_true rfl (.inl hBlank)
  · rw [hWord.words_head?]
    dsimp only
    rw [DeclKind.isSome_ofHeader?]
    constructor
    · rintro ⟨kind, hKind, rfl⟩
      exact .inr ⟨kind, hKind, rest, hWord.marked, hWord.stop⟩
    · rintro (hBlank | ⟨kind, hKind, rest', hMarked, hStop⟩)
      · have hNone := words_head?_of_blank hBlank
        rw [hWord.words_head?] at hNone
        cases hNone
      · have hKindWord : FirstWord text.toList kind.word rest' :=
          ⟨hMarked, kind.solid_word.1, kind.solid_word.2, hStop⟩
        exact ⟨kind, hKind, Option.some.inj (hKindWord.words_head?.symm.trans hWord.words_head?)⟩

/-- A file name between two marks is not empty, holds no closing mark, and ends at the first one. -/
theorem enclosed?_eq_some_iff {last : Char} {target : String} : enclosed? last cs = some target ↔
    ∃ rest, cs = target.toList ++ last :: rest ∧ target ≠ "" ∧ last ∉ target.toList := by
  unfold enclosed?
  have hParts := List.takeWhile_append_dropWhile (p := (· != last)) (l := cs)
  constructor
  · intro h
    dsimp only at h
    split at h
    · cases h
    next hSome =>
      simp only [Bool.or_eq_true, not_or, Bool.not_eq_true, beq_eq_false_iff_ne] at hSome
      obtain rfl := Option.some.inj h
      rw [String.toList_ofList]
      cases hRest : cs.dropWhile (· != last) with
      | nil =>
          rw [hRest, List.append_nil] at hParts
          exact absurd (congrArg List.length hParts) hSome.2
      | cons c rest =>
          have hHead := List.head?_dropWhile_not (· != last) cs
          rw [hRest] at hHead
          obtain rfl : c = last := by simpa using hHead
          refine ⟨rest, by rw [← hRest, hParts], ?_, fun hMem => ?_⟩
          · rw [ne_eq, ← String.toList_eq_nil_iff, String.toList_ofList]
            exact List.isEmpty_eq_false_iff.1 hSome.1
          · simpa using List.mem_takeWhile_imp hMem
  · rintro ⟨rest, rfl, hNe, hNot⟩
    have hInner : (target.toList ++ last :: rest).takeWhile (· != last) = target.toList := by
      rw [List.takeWhile_append_of_pos, List.takeWhile_cons_of_neg (by simp), List.append_nil]
      intro c hc
      rw [bne_iff_ne]
      rintro rfl
      exact hNot hc
    have hEmpty : target.toList.isEmpty = false := by
      simpa [List.isEmpty_eq_false_iff, String.toList_eq_nil_iff] using hNe
    rw [hInner, if_neg, String.ofList_toList]
    simp [hEmpty]

/-- The target of a line, behind what may make it a comment. -/
def targetOf? (cs : List Char) : Option String := do
  match afterBlanks (← afterSignAndWord? "include" cs) with
  | '"' :: rest => enclosed? '"' rest
  | '<' :: rest => enclosed? '>' rest
  | _ => none

/-- The target of an included file is read exactly where a line names one, behind its sign and its
word. -/
theorem targetOf?_eq_some_iff {target : String} :
    targetOf? cs = some target ↔ NamesFile cs target := by
  have hQuote : ∀ {cs rest}, Marked "\"" cs rest ↔ afterBlanks cs = '"' :: rest :=
    marked_iff (show "\"".toList.head? = some '"' from rfl) (by decide)
  have hAngle : ∀ {cs rest}, Marked "<" cs rest ↔ afterBlanks cs = '<' :: rest :=
    marked_iff (show "<".toList.head? = some '<' from rfl) (by decide)
  unfold targetOf?
  rw [Option.bind_eq_bind, Option.bind_eq_some_iff]
  simp only [afterSignAndWord?_eq_some_iff (show "include".toList.head? = some 'i' from rfl)
    (by decide)]
  constructor
  · rintro ⟨word, ⟨sign, hSign, hWord⟩, hTarget⟩
    refine ⟨sign, hSign, word, hWord, ?_⟩
    split at hTarget
    next hRest =>
      obtain ⟨rest, rfl, hInside⟩ := enclosed?_eq_some_iff.1 hTarget
      exact ⟨"\"", '"', by simp, rest, hQuote.2 hRest, hInside⟩
    next hRest =>
      obtain ⟨rest, rfl, hInside⟩ := enclosed?_eq_some_iff.1 hTarget
      exact ⟨"<", '>', by simp, rest, hAngle.2 hRest, hInside⟩
    · cases hTarget
  · rintro ⟨sign, hSign, word, hWord, first, last, hMarks, rest, hFirst, hInside⟩
    refine ⟨word, ⟨sign, hSign, hWord⟩, ?_⟩
    simp only [List.mem_cons, Prod.mk.injEq, List.not_mem_nil, or_false] at hMarks
    rcases hMarks with ⟨rfl, rfl⟩ | ⟨rfl, rfl⟩
    · rw [hQuote.1 hFirst]
      exact enclosed?_eq_some_iff.2 ⟨rest, rfl, hInside⟩
    · rw [hAngle.1 hFirst]
      exact enclosed?_eq_some_iff.2 ⟨rest, rfl, hInside⟩

/-- Blank characters in front of a file's name make no difference to it. -/
theorem targetOf?_afterBlanks (cs : List Char) : targetOf? (afterBlanks cs) = targetOf? cs := by
  have hTwice : afterBlanks (afterBlanks cs) = afterBlanks cs :=
    List.dropWhile_idempotent isBlank cs
  unfold targetOf? afterSignAndWord?
  rw [hTwice]

/-- A line is an include line exactly if the directive's file is named there, in a comment or
not. -/
theorem includeTarget?_iff {target : String} :
    (∃ commented, includeTarget? line = some (target, commented)) ↔ IncludeLine line target := by
  have hSlashes : ∀ {cs rest}, Marked "//" cs rest ↔ after? "//" (afterBlanks cs) = some rest :=
    (after?_afterBlanks_iff (show "//".toList.head? = some '/' from rfl) (by decide)).symm
  unfold IncludeLine
  simp only [hSlashes, ← targetOf?_eq_some_iff]
  cases hComment : after? "//" (afterBlanks line.toList) with
  | none =>
      have hTarget : includeTarget? line =
          (targetOf? line.toList).bind fun target => some (target, false) := by
        rw [← targetOf?_afterBlanks]
        unfold includeTarget? targetOf?
        simp only [hComment]
        cases afterSignAndWord? "include" (afterBlanks line.toList) <;> rfl
      rw [hTarget]
      cases hWhole : targetOf? line.toList <;> simp [hWhole]
  | some rest =>
      have hTarget : includeTarget? line =
          (targetOf? rest).bind fun target => some (target, true) := by
        unfold includeTarget? targetOf?
        simp only [hComment]
        cases afterSignAndWord? "include" rest <;> rfl
      -- A line cannot start with two slashes and with a number sign.
      have hWhole : targetOf? line.toList = none := by
        rw [Option.eq_none_iff_forall_ne_some]
        intro other hOther
        obtain ⟨sign, hSign, -⟩ := targetOf?_eq_some_iff.1 hOther
        rw [after?_eq_some_iff, (marked_iff (show "#".toList.head? = some '#' from rfl)
          (by decide)).1 hSign] at hComment
        exact absurd (congrArg List.head? hComment) (by simp)
      rw [hTarget]
      cases hRest : targetOf? rest <;> simp [hRest, hWhole]

end Header

/-- Which character comes first that is not blank. -/
theorem Marked.head? {c : Char} (h : Marked mark cs rest) (hMark : mark.toList.head? = some c)
    (hSolid : isBlank c = false) : (Header.afterBlanks cs).head? = some c := by
  rw [(Header.marked_iff hMark hSolid).1 h, List.head?_append, hMark]
  rfl

theorem HeaderMark.head? (h : HeaderMark cs remainder) :
    (Header.afterBlanks cs).head? = some '#' := by
  obtain ⟨sign, hSign, -⟩ := h
  exact hSign.head? rfl (by decide)

/-- A line that starts a header in a host file does not start with the mark of the header itself,
because a comment opens before it. -/
theorem not_headerMark_of_firstHeader {other : String} (h : FirstHeader line other)
    (remainder : String) : ¬ HeaderMark line.toList remainder := by
  obtain ⟨opened, hOpened, -⟩ := h
  intro hMark
  have hSlash := hOpened.head? (show "/*".toList.head? = some '/' from rfl) (by decide)
  rw [hMark.head?] at hSlash
  cases hSlash

/-- A line that names a generated file starts no header, so that each line is read in one way
only. -/
theorem not_firstHeader_of_includeLine {target : String} (h : IncludeLine line target) :
    ¬ FirstHeader line remainder := by
  obtain ⟨start, hStart, sign, hSign, -⟩ := h
  rintro ⟨opened, hOpened, -⟩
  have hOpen := (Header.marked_iff (show "/*".toList.head? = some '/' from rfl) (by decide)).1
    hOpened
  rcases hStart with hSlashes | rfl
  · rw [(Header.marked_iff (show "//".toList.head? = some '/' from rfl) (by decide)).1 hSlashes]
      at hOpen
    exact absurd (congrArg (fun cs => cs.tail.head?) hOpen) (by simp)
  · have hNumber := hSign.head? (show "#".toList.head? = some '#' from rfl) (by decide)
    rw [hOpen] at hNumber
    cases hNumber

namespace Header

/-- In a host file a header goes on exactly on lines that are written as later header lines. -/
theorem later?_host_iff : later? .host line = some remainder ↔ LaterHeader line remainder := by
  unfold later? LaterHeader
  rw [Option.filter_eq_some_iff, continues_iff]
  refine and_congr_left fun _ => ?_
  change (afterCommentMark? line <|> afterMark? line.toList) = _ ↔ _
  have hFirst : ∀ other, afterCommentMark? line = some other ↔ FirstHeader line other :=
    fun _ => first?_host_iff
  cases hOpened : afterCommentMark? line with
  | some opened =>
      have hNot := not_headerMark_of_firstHeader ((hFirst opened).1 hOpened) remainder
      rw [← hFirst, hOpened]
      simp [hNot]
  | none =>
      rw [← hFirst, hOpened]
      simpa using afterMark?_eq_some_iff

end Header

theorem infix_cons_of_ne {c : Char} (h : c ≠ '*') :
    "*/".toList <:+: c :: cs ↔ "*/".toList <:+: cs := by
  rw [List.infix_cons_iff]
  refine or_iff_right fun hPrefix => h ?_
  exact (List.cons_prefix_cons.1 hPrefix).1.symm

theorem infix_append_of_notMem {first : List Char} (h : '*' ∉ first) :
    "*/".toList <:+: first ++ cs ↔ "*/".toList <:+: cs := by
  induction first with
  | nil => rfl
  | cons c first ih =>
      rw [List.mem_cons, not_or] at h
      rw [List.cons_append, infix_cons_of_ne (Ne.symm h.1), ih h.2]

theorem Marked.infix_iff (h : Marked mark cs rest) (hMark : '*' ∉ mark.toList) :
    "*/".toList <:+: cs ↔ "*/".toList <:+: rest := by
  obtain ⟨blanks, hBlanks, rfl⟩ := h
  have hStar : '*' ∉ blanks := fun hMem => absurd (hBlanks _ hMem) (by decide)
  rw [infix_append_of_notMem hStar, infix_append_of_notMem hMark]

/-- The mark in front of what remains holds no star, so that both end the comment or neither
does. -/
theorem HeaderMark.endsComment_iff (h : HeaderMark cs remainder) :
    "*/".toList <:+: cs ↔ EndsComment remainder := by
  obtain ⟨sign, hSign, hMeta, -⟩ := h
  rw [hSign.infix_iff (by decide), hMeta.infix_iff (by decide)]
  rfl

/-- A header line ends the comment exactly if what remains of it behind its mark does. -/
theorem FirstHeader.endsComment_iff (h : FirstHeader line remainder) :
    EndsComment line ↔ EndsComment remainder := by
  obtain ⟨opened, ⟨blanks, hBlanks, hLine⟩, hMark⟩ := h
  have hStar : '*' ∉ blanks := fun hMem => absurd (hBlanks _ hMem) (by decide)
  have hSlash : ∀ rest, opened ≠ '/' :: rest := by
    rintro rest rfl
    have hHead := hMark.head?
    rw [Header.afterBlanks, dropWhile_cons_of_solid (by decide)] at hHead
    cases hHead
  have hOpen : "*/".toList <:+: '*' :: opened ↔ "*/".toList <:+: opened := by
    rw [List.infix_cons_iff]
    refine or_iff_right fun hPrefix => ?_
    obtain ⟨more, hMore⟩ := (List.cons_prefix_cons.1 hPrefix).2
    exact hSlash more hMore.symm
  rw [EndsComment, hLine, infix_append_of_notMem hStar, ← hMark.endsComment_iff, ← hOpen]
  exact infix_cons_of_ne (by decide)

/-- A later header line ends the comment exactly if what remains of it behind its mark does. -/
theorem LaterHeader.endsComment_iff (h : LaterHeader line remainder) :
    EndsComment line ↔ EndsComment remainder := by
  rcases h.1 with hFirst | hMark
  · exact hFirst.endsComment_iff
  · exact hMark.endsComment_iff

/-- A line of a script is its line of the host file up to the end of the comment, without some of
the blanks in front of it and without those behind it. -/
theorem shownAs_scriptLine (indent : Nat) (line : String) :
    ShownAs line (ScanMode.host.scriptLine indent line) := by
  refine ⟨_, Header.upToEnd_cutComment line, ?_⟩
  change ∃ before behind, _ ∧ _ ∧ (Header.cutComment line).1.toList =
    before ++ ((shiftLeft indent (Header.cutComment line).1).toList ++ behind) ∧
      ∀ c ∈ (shiftLeft indent (Header.cutComment line).1).toList.getLast?, _
  generalize (Header.cutComment line).1 = text
  unfold shiftLeft
  split
  next hBlank =>
    refine ⟨text.toList, [], ?_, by simp [Blank], by simp, by simp⟩
    simpa [isAllBlank, Blank] using hBlank
  · let rest := text.toList.drop (min indent (leadingBlanks text))
    have hRest : rest.rdropWhile isBlank ++ rest.rtakeWhile isBlank = rest :=
      List.rdropWhile_append_rtakeWhile
    have hShown : (trimEnd (.ofList rest)).toList = rest.rdropWhile isBlank := by
      rw [trimEnd, String.toList_ofList, String.toList_ofList]
      rfl
    refine ⟨text.toList.take _, rest.rtakeWhile isBlank, blank_take (Nat.min_le_right indent _),
      fun _ hc => List.mem_rtakeWhile_imp hc, ?_, ?_⟩
    · rw [hShown, hRest, List.take_append_drop]
    · rw [hShown]
      intro c hc
      have hNe : rest.rdropWhile isBlank ≠ [] := by
        rintro hNil
        rw [hNil] at hc
        cases hc
      have hLast := List.rdropWhile_last_not isBlank rest hNe
      rw [List.getLast?_eq_getLast_of_ne_nil hNe] at hc
      obtain rfl := Option.some.inj hc
      simpa using hLast

end Metagen
