import Metagen.Proofs.Directive.Stepping

/-! Where directives stand in their sources. The lines of a script are those of its source below its
header, in a host file up to the line that ends the comment, and otherwise up to the last one. -/

namespace Metagen

open Text

def Header.closes (text : String) : Bool := (cutComment text).2

/-- What a line of a source is in a script. In a host file the end of the comment is left out, and
so is some indentation. -/
def ScanMode.scriptLine (mode : ScanMode) (indent : Nat) (text : String) : String :=
  match mode with
  | .host => shiftLeft indent (Header.cutComment text).1
  | .script => text

/-- Where a directive stands among the lines of its source, up to its last line. -/
structure Directive.SpansLines (d : Directive) (mode : ScanMode) (last : Nat) : Prop where
  header_pos : 0 < d.headerLine
  header_lt : d.headerLine < d.bodyLine
  last_eq : last + 1 = d.bodyLine + d.body.length
  /-- The lines of the script are those of the source up to the last one. -/
  body_eq : ∃ indent, d.body =
    ((d.file.lines.take last).drop (d.bodyLine - 1)).map (mode.scriptLine indent)
  /-- A script ends with its source. -/
  script_ends : mode = .script → last = d.file.lines.length
  /-- In a host file the last line is the first one that ends the comment. -/
  host_ends : mode = .host → ∃ before closing after,
    d.file.lines = before ++ closing :: after ∧ before.length + 1 = last ∧
      Header.closes closing = true ∧
      ∀ text ∈ before.drop (d.bodyLine - 1), Header.closes text = false

/-- What the scan of a source promises about a directive. -/
structure Directive.PlacedInSource (mode : ScanMode) (d : Directive) : Prop where
  spans : ∃ last, d.SpansLines mode last
  named : ∀ decl ∈ d.decls, Header.nameFault? decl.name = none

/-- Names that a directive defines have passed the check of its header and can therefore stand in
scripts. -/
theorem Directive.PlacedInSource.named_definedNames {mode : ScanMode} {d : Directive}
    (h : d.PlacedInSource mode)
    (name : String) (hName : name ∈ d.definedNames) : Header.nameFault? name = none := by
  obtain ⟨decl, hDecl, rfl⟩ := List.mem_map.1 hName
  exact h.named decl (List.mem_filter.1 hDecl).1

/-- Each name of a header that was read can stand as a name in a script. -/
theorem Header.parse_named {remainder : String} {decls : List (DeclKind × String)}
    (h : Header.parse remainder = .ok decls) : ∀ decl ∈ decls, nameFault? decl.2 = none := by
  unfold Header.parse at h
  dsimp only at h
  split at h
  · cases h
    simp
  · split at h
    · cases h
    · split at h
      · cases h
      · split at h
        · cases h
        next hNames =>
          obtain rfl := Except.ok.inj h
          intro decl hDecl
          obtain ⟨name, hMem, rfl⟩ := List.mem_map.1 hDecl
          exact List.findSome?_eq_none_iff.1 hNames name hMem

/-- Whether a text is cut at a part depends on the text alone and not on what was passed before. -/
theorem isSome_cutAtFrom (part passed passed' cs : List Char) :
    (cutAtFrom part passed cs).isSome = (cutAtFrom part passed' cs).isSome := by
  induction cs generalizing passed passed' with
  | nil =>
      unfold cutAtFrom
      split <;> rfl
  | cons c cs ih =>
      unfold cutAtFrom
      split
      · rfl
      · exact ih _ _

/-- What occurs in the rest of a text occurs in the text. -/
theorem isSome_cutAt_of_suffix {part cs rest : List Char} (hRest : rest <:+ cs)
    (h : (cutAt part rest).isSome = true) : (cutAt part cs).isSome = true := by
  induction cs with
  | nil => rwa [List.suffix_nil.1 hRest] at h
  | cons c cs ih =>
      rcases List.suffix_cons_iff.1 hRest with rfl | hRest
      · exact h
      · unfold cutAt cutAtFrom
        split
        · rfl
        · rw [isSome_cutAtFrom _ _ []]
          exact ih hRest

/-- A line closes a comment exactly if it can be cut at the two characters that end one. -/
theorem Header.closes_eq (text : String) :
    closes text = (cutAt "*/".toList text.toList).isSome := by
  unfold closes cutComment
  cases cutAt "*/".toList text.toList with
  | none => rfl
  | some cut => rfl

theorem Header.cutComment_of_open {text : String} (h : closes text = false) :
    cutComment text = (text, false) := by
  rw [closes_eq] at h
  unfold cutComment
  rw [Option.isSome_eq_false_iff.1 h |> Option.isNone_iff_eq_none.1]

namespace Header

theorem suffix_after? {beginning : String} {cs rest : List Char}
    (h : after? beginning cs = some rest) : rest <:+ cs := by
  unfold after? at h
  split at h
  · cases h
    exact List.drop_suffix _ _
  · cases h

theorem suffix_afterSignAndWord? {word : String} {cs rest : List Char}
    (h : afterSignAndWord? word cs = some rest) : rest <:+ cs := by
  obtain ⟨middle, hSign, hWord⟩ := Option.bind_eq_some_iff.1 h
  have hMiddle := (suffix_after? hSign).trans (List.dropWhile_suffix _)
  exact ((suffix_after? hWord).trans (List.dropWhile_suffix _)).trans hMiddle

/-- What remains behind the mark of a header is the end of the line it stands on. -/
theorem suffix_afterMark? {cs : List Char} {remainder : String}
    (h : afterMark? cs = some remainder) : remainder.toList <:+ cs := by
  obtain ⟨rest, hRest, hEnd⟩ := Option.bind_eq_some_iff.1 h
  have hSuffix := suffix_afterSignAndWord? hRest
  cases rest with
  | nil =>
      cases hEnd
      exact List.nil_suffix
  | cons c others =>
      dsimp only at hEnd
      split at hEnd
      · cases hEnd
      · cases hEnd
        rwa [String.toList_ofList]

theorem suffix_afterCommentMark? {line remainder : String}
    (h : afterCommentMark? line = some remainder) : remainder.toList <:+ line.toList := by
  obtain ⟨rest, hRest, hMark⟩ := Option.bind_eq_some_iff.1 h
  have hOpen := (suffix_after? hRest).trans (List.dropWhile_suffix _)
  exact (suffix_afterMark? hMark).trans hOpen

theorem suffix_first? {mode : ScanMode} {line remainder : String}
    (h : first? mode line = some remainder) : remainder.toList <:+ line.toList := by
  cases mode with
  | host => exact suffix_afterCommentMark? h
  | script => exact suffix_afterMark? h

/-- What a later line adds to a header is the end of that line. -/
theorem suffix_later? {mode : ScanMode} {line remainder : String}
    (h : later? mode line = some remainder) : remainder.toList <:+ line.toList := by
  obtain ⟨hRemainder, -⟩ := Option.filter_eq_some_iff.1 h
  cases mode with
  | host =>
      cases hOpens : afterCommentMark? line with
      | some opened =>
          rw [hOpens] at hRemainder
          cases hRemainder
          exact suffix_afterCommentMark? hOpens
      | none =>
          rw [hOpens] at hRemainder
          exact suffix_afterMark? hRemainder
  | script => exact suffix_afterMark? hRemainder

/-- A comment that ends in the rest of a line ends in the line. -/
theorem closes_of_suffix {line remainder : String} (hRest : remainder.toList <:+ line.toList)
    (h : closes remainder = true) : closes line = true := by
  rw [closes_eq] at h ⊢
  exact isSome_cutAt_of_suffix hRest h

end Header

namespace Scan

/-- What holds of a header whose lines end above a line. -/
structure OpenHeader.Above (h : OpenHeader) (line : Nat) : Prop where
  pos : 0 < h.headerLine
  lt : h.headerLine < line
  named : ∀ decl ∈ h.decls, Header.nameFault? decl.name = none

/-- What holds of a script after the lines that were read. -/
structure OpenBody.Behind (b : OpenBody) (mode : ScanMode) (done : List String) : Prop where
  header : b.toOpenHeader.Above b.bodyLine
  lines : ∃ before, done = before ++ b.body.reverse ∧ b.bodyLine = before.length + 1
  still : mode = .host → ∀ text ∈ b.body, Header.closes text = false

/-- What holds of each place after the lines that were read. -/
def Position.Behind (mode : ScanMode) (done : List String) : Position → Prop
  | .outside _ => True
  | .header h => h.Above (done.length + 1)
  | .body b => b.Behind mode done

variable {dir : String} {file : SourceFile} {mode : ScanMode} {done : List String} {text : String}
  {rest : List String} {place : Position} {r : Option Directive × Position}
  {warnings after : Array String}

/-- The declarations of one more line leave all declarations of the header above the next line. -/
theorem above_declaring {line : Nat} {remainder : String} {h : OpenHeader}
    {decls : List (DeclKind × String)} (hOpen : h.Above (line + 1))
    (hParse : Header.parse remainder = .ok decls) :
    (h.declaring line decls).Above (line + 1) := by
  refine ⟨hOpen.pos, hOpen.lt, fun decl hDecl => ?_⟩
  rcases OpenHeader.mem_declaring hDecl with hOld | hNew
  · exact hOpen.named decl hOld
  · exact Header.parse_named hParse _ hNew

/-- A header that ends its comment is a directive without a script. -/
theorem placedInSource_of_header {h : OpenHeader} (hOpen : h.Above (done.length + 2))
    (hLines : file.lines = done ++ text :: rest) (hCloses : Header.closes text = true) :
    (close file h (done.length + 2) []).PlacedInSource .host where
  spans := by
    refine ⟨done.length + 1, hOpen.pos, hOpen.lt, rfl, ⟨0, ?_⟩, nofun, fun _ => ?_⟩
    · change [] = ((file.lines.take (done.length + 1)).drop (done.length + 1)).map _
      rw [List.drop_take_self]
      rfl
    · refine ⟨done, text, rest, hLines, rfl, hCloses, ?_⟩
      change ∀ text ∈ done.drop (done.length + 1), _
      rw [List.drop_eq_nil_of_le (Nat.le_succ _)]
      simp
  named := hOpen.named

/-- A header line places what it completes in the source: the lines of a directive are lines of its
file, in their order. -/
theorem headerStep_placedInSource {remainder : String} {h : OpenHeader}
    (hOpen : h.Above (done.length + 2))
    (hLines : file.lines = done ++ text :: rest) (hRemainder : remainder.toList <:+ text.toList)
    (hStep : HeaderStep file mode (done.length + 1) remainder h r) :
    (∀ d ∈ r.1, d.file = file ∧ d.PlacedInSource mode) ∧ r.2.Behind mode (done ++ [text]) := by
  cases hStep with
  | more _ hParse =>
      refine ⟨by simp, ?_⟩
      rw [Position.Behind, List.length_append]
      exact above_declaring hOpen hParse
  | ends hText hParse =>
      refine ⟨?_, trivial⟩
      rintro d ⟨⟩
      cases mode with
      | script => cases hText
      | host =>
          have hCloses : Header.closes remainder = true := congrArg Prod.snd hText
          exact ⟨rfl, placedInSource_of_header (above_declaring hOpen hParse) hLines
            (Header.closes_of_suffix hRemainder hCloses)⟩

/-- The lines of a script, up to the one that ends its comment. -/
theorem placedInSource_of_body {b : OpenBody} (h : b.Behind .host done)
    (hLines : file.lines = done ++ text :: rest) (hCloses : Header.closes text = true) :
    (close file b.toOpenHeader b.bodyLine
      (dedentLines (some bodyComment)
        ((Header.cutComment text).1 :: b.body).reverse)).PlacedInSource .host where
  spans := by
    obtain ⟨before, rfl, hFirst⟩ := h.lines
    let block := ((Header.cutComment text).1 :: b.body).reverse
    have hLength : (dedentLines (some bodyComment) block).length = b.body.length + 1 := by
      simp [dedentLines, block]
    have hBefore : b.bodyLine - 1 = before.length := by omega
    have hRaw : (file.lines.take ((before ++ b.body.reverse).length + 1)).drop before.length =
        b.body.reverse ++ [text] := by
      have hSplit : file.lines = before ++ (b.body.reverse ++ [text]) ++ rest := by
        rw [hLines]
        simp
      have hEnd : (before ++ b.body.reverse).length + 1 =
          (before ++ (b.body.reverse ++ [text])).length := by simp [Nat.add_assoc]
      rw [hSplit, hEnd, List.take_left, List.drop_left]
    have hOpen : ∀ t ∈ b.body.reverse, (Header.cutComment t).1 = t := fun t ht => by
      rw [Header.cutComment_of_open (h.still rfl t (List.mem_reverse.1 ht))]
    refine ⟨(before ++ b.body.reverse).length + 1, h.header.pos, h.header.lt, ?_,
      ⟨commonIndent (some bodyComment) block, ?_⟩, nofun, fun _ => ?_⟩
    · change _ = b.bodyLine + (dedentLines (some bodyComment) block).length
      rw [hLength, hFirst, List.length_append, List.length_reverse]
      omega
    · change dedentLines (some bodyComment) block =
        ((file.lines.take _).drop (b.bodyLine - 1)).map _
      rw [hBefore, hRaw, dedentLines, List.map_append]
      change ((Header.cutComment text).1 :: b.body).reverse.map _ = _
      rw [List.reverse_cons, List.map_append]
      congr 1
      refine List.map_congr_left fun t ht => ?_
      change _ = shiftLeft _ (Header.cutComment t).1
      rw [hOpen t ht]
    · refine ⟨before ++ b.body.reverse, text, rest, hLines, rfl, hCloses, ?_⟩
      change ∀ t ∈ (before ++ b.body.reverse).drop (b.bodyLine - 1), _
      rw [hBefore, List.drop_left]
      exact fun t ht => h.still rfl t (List.mem_reverse.1 ht)
  named := h.header.named

/-- A body line either goes on with the body or ends it, and the directive that ends there is placed
in its source. -/
theorem bodyStep_placedInSource {b : OpenBody} (h : b.Behind mode done)
    (hLines : file.lines = done ++ text :: rest) (hStep : BodyStep file text b mode r) :
    (∀ d ∈ r.1, d.file = file ∧ d.PlacedInSource mode) ∧ r.2.Behind mode (done ++ [text]) := by
  cases hStep with
  | more hOpen =>
      obtain ⟨before, hDone, hFirst⟩ := h.lines
      refine ⟨by simp, h.header, ⟨before, ?_, hFirst⟩, fun hHost t ht => ?_⟩
      · rw [hDone, List.reverse_cons, List.append_assoc]
      · rcases List.mem_cons.1 ht with rfl | ht
        · exact hOpen hHost
        · exact h.still hHost t ht
  | ends hCloses =>
      refine ⟨?_, trivial⟩
      rintro d ⟨⟩
      exact ⟨rfl, placedInSource_of_body h hLines hCloses⟩

/-- Reading one line keeps what is known, and a directive that ends there is placed. -/
theorem step_placedInSource (hPlace : place.Behind mode done)
    (hLines : file.lines = done ++ text :: rest)
    (hStep : LineStep dir file mode (done.length + 1) text place r) :
    (∀ d ∈ r.1, d.file = file ∧ d.PlacedInSource mode) ∧ r.2.Behind mode (done ++ [text]) := by
  cases hStep with
  | names => exact ⟨by simp, trivial⟩
  | passes => exact ⟨by simp, trivial⟩
  | @opens pending _ _ hFirst hStep =>
      have hOpen : OpenHeader.Above
          { headerLine := done.length + 1, include? := pending.map (·.target) }
          (done.length + 2) := ⟨Nat.succ_pos _, Nat.lt_succ_self _, by simp⟩
      exact headerStep_placedInSource hOpen hLines (Header.suffix_first? hFirst) hStep
  | @goesOn h _ _ hLater hStep =>
      have hOpen : h.Above (done.length + 2) :=
        ⟨hPlace.pos, Nat.lt_succ_of_lt hPlace.lt, hPlace.named⟩
      exact headerStep_placedInSource hOpen hLines (Header.suffix_later? hLater) hStep
  | @begins h _ _ _ hStep =>
      have hBegin : OpenBody.Behind { h with bodyLine := done.length + 1 } mode done :=
        ⟨hPlace, ⟨done, (List.append_nil _).symm, rfl⟩, by simp⟩
      exact bodyStep_placedInSource hBegin hLines hStep
  | continues hStep => exact bodyStep_placedInSource hPlace hLines hStep

/-- A directive that ends with its source is a script. -/
theorem finish_placedInSource {ds : List Directive} (hPlace : place.Behind mode file.lines)
    (hStep : EndStep file (file.lines.length + 1) mode place ds) :
    ∀ d ∈ ds, d.file = file ∧ d.PlacedInSource mode := by
  cases hStep with
  | outside => simp
  | header =>
      refine List.forall_mem_singleton.2 ⟨rfl, ⟨file.lines.length, hPlace.pos, hPlace.lt, rfl,
        ⟨0, ?_⟩, fun _ => rfl, nofun⟩, hPlace.named⟩
      change [] = ((file.lines.take file.lines.length).drop file.lines.length).map _
      rw [List.drop_take_self]
      rfl
  | @body b =>
      obtain ⟨before, hDone, hFirst⟩ := hPlace.lines
      refine List.forall_mem_singleton.2 ⟨rfl, ⟨file.lines.length, hPlace.header.pos,
        hPlace.header.lt, ?_, ⟨0, ?_⟩, fun _ => rfl, nofun⟩, hPlace.header.named⟩
      · change _ = b.bodyLine + b.body.reverse.length
        rw [hDone, List.length_append, hFirst]
        omega
      · change b.body.reverse =
          ((file.lines.take file.lines.length).drop (b.bodyLine - 1)).map id
        have hBefore : b.bodyLine - 1 = before.length := by omega
        rw [List.take_length, List.map_id, hBefore, hDone, List.drop_left]

/-- Directives found from some line on are placed, by induction on the lines still to be read. -/
theorem directivesFrom_placedInSource {ds : List Directive} (hPlace : place.Behind mode done)
    (hLines : file.lines = done ++ rest)
    (hRun : directivesFrom dir file mode (done.length + 1) rest place warnings = .ok ds after) :
    ∀ d ∈ ds, d.file = file ∧ d.PlacedInSource mode := by
  induction rest generalizing done place ds warnings after with
  | nil =>
      rw [List.append_nil] at hLines
      obtain rfl := hLines
      exact finish_placedInSource hPlace (finish_ok hRun)
  | cons text texts ih =>
      obtain ⟨found, next, more, _, hStep, hMore, rfl⟩ := directivesFrom_ok hRun
      obtain ⟨hFound, hNext⟩ := step_placedInSource hPlace hLines hStep
      have hLength : (done ++ [text]).length = done.length + 1 := List.length_append
      rw [← hLength] at hMore
      intro d hd
      rcases List.mem_append.1 hd with hd | hd
      · exact hFound d (Option.mem_toList.1 hd)
      · exact ih hNext (by rw [hLines, List.append_assoc]; rfl) hMore d hd

end Scan

/-- All directives that a scan finds are placed in their sources. -/
theorem scan_placedInSource {dir : String} {sources : List SourceUnit} {ds : List Directive}
    {warnings after : Array String} (hRun : scan dir sources warnings = .ok ds after) :
    ∀ d ∈ ds, ∃ source ∈ sources, d.file = source.file ∧ d.PlacedInSource source.mode := by
  intro d hd
  obtain ⟨source, hSource, found, before, behind, hFound, hMem⟩ := scan_ok hRun d hd
  have hPlace : (Scan.Position.outside none).Behind source.mode [] := trivial
  exact ⟨source, hSource, Scan.directivesFrom_placedInSource hPlace rfl hFound d hMem⟩

end Metagen
