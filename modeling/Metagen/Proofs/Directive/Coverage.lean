import Metagen.Proofs.Directive.Marks

/-! Which lines of a host file belong to directives. The lines from a header to the end of its
comment are the range of a directive. Ranges follow each other without overlap, every line that
opens a header is in one of them, and the file that a directive generates is named right above its
header, by a line that is not in another range. -/

namespace Metagen

open Text

/-- The line with this number is this text. Lines are counted from one. -/
def LineIs (lines : List String) (n : Nat) (text : String) : Prop :=
  0 < n ∧ lines[n - 1]? = some text

theorem LineIs.unique {lines : List String} {n : Nat} {text other : String}
    (h : LineIs lines n text) (h' : LineIs lines n other) : text = other :=
  Option.some.inj (h.2.symm.trans h'.2)

theorem LineIs.le_length {lines : List String} {n : Nat} {text : String}
    (h : LineIs lines n text) : n ≤ lines.length := by
  have hLess := (List.getElem?_eq_some_iff.1 h.2).1
  omega

theorem lineIs_of_append {lines done rest : List String} {text : String}
    (h : lines = done ++ text :: rest) : LineIs lines (done.length + 1) text := by
  refine ⟨Nat.succ_pos _, ?_⟩
  rw [h, Nat.add_sub_cancel, List.getElem?_append_right (Nat.le_refl _), Nat.sub_self]
  rfl

namespace Scan

/-- No comment ends on these lines. -/
def Open (lines : List String) (first last : Nat) : Prop :=
  ∀ n text, first ≤ n → n ≤ last → LineIs lines n text → Header.closes text = false

/-- No header starts on these lines. -/
def Unmarked (lines : List String) (first last : Nat) : Prop :=
  ∀ n text, first ≤ n → n ≤ last → LineIs lines n text → Header.first? .host text = none

/-- These lines go on with a header. -/
def LaterLines (lines : List String) (first last : Nat) : Prop :=
  ∀ n, first < n → n ≤ last → ∃ text remainder, LineIs lines n text ∧
    Header.later? .host text = some remainder

/-- Whether a line names a generated file, if it is below another one. -/
def NamesFile (dir : String) (lines : List String) (prev n : Nat) (found : Option Include) : Prop :=
  ∀ target, found = some target ↔ prev < n ∧ ∃ text name commented, LineIs lines n text ∧
    Header.includeTarget? text = some (name, commented) ∧ target = ⟨Path.join dir name, n⟩

/-- A header starts on a line, below another one; the file that is generated is named right above
it. -/
structure StartsHeader (dir : String) (lines : List String) (prev first : Nat)
    (found : Option Include) :
    Prop where
  lt : prev < first
  marked : ∃ text remainder, LineIs lines first text ∧ Header.first? .host text = some remainder
  unmarked : Unmarked lines (prev + 1) (first - 1)
  names : NamesFile dir lines prev (first - 1) found

/-- What is known of a script after the first lines were read. -/
structure OpenBody.ReadTo (b : OpenBody) (dir : String) (lines : List String) (prev n : Nat) :
    Prop where
  starts : StartsHeader dir lines prev b.headerLine b.include?
  lt : b.headerLine < b.bodyLine
  length : b.bodyLine + b.body.length = n + 1
  still : Open lines b.headerLine n
  later : LaterLines lines b.headerLine (b.bodyLine - 1)
  maximal : ∀ text, LineIs lines b.bodyLine text → Header.later? .host text = none

/-- What is known at each place after the first lines were read, when the last directive has ended
on a line. -/
def Position.ReadTo (dir : String) (lines : List String) (prev n : Nat) : Position → Prop
  | .outside pending =>
      prev ≤ n ∧ Unmarked lines (prev + 1) n ∧ NamesFile dir lines prev n (pending.map (·.target))
  | .header h =>
      StartsHeader dir lines prev h.headerLine h.include? ∧ h.headerLine ≤ n ∧
        Open lines h.headerLine n ∧ LaterLines lines h.headerLine n
  | .body b => b.ReadTo dir lines prev n

end Scan

namespace Directive

/-- The last line of a directive in a host file, where its comment ends. -/
def lastLine (d : Directive) : Nat := d.bodyLine + d.body.length - 1

/-- The range of a directive that starts below a line. -/
structure Ranges (d : Directive) (dir : String) (lines : List String) (prev : Nat) : Prop where
  starts : Scan.StartsHeader dir lines prev d.headerLine d.include?
  header_lt : d.headerLine < d.bodyLine
  header_le : d.headerLine ≤ d.lastLine
  later : Scan.LaterLines lines d.headerLine (d.bodyLine - 1)
  maximal : d.bodyLine ≤ d.lastLine → ∀ text, LineIs lines d.bodyLine text →
    Header.later? .host text = none
  still : Scan.Open lines d.headerLine (d.lastLine - 1)
  closes : ∃ text, LineIs lines d.lastLine text ∧ Header.closes text = true

end Directive

namespace Scan

variable {dir : String} {lines : List String} {file : SourceFile} {prev n first : Nat}
  {text remainder : String} {warnings after : Array String}

/-- A body that is open up to some line is open up to the next one if that line does not end a
comment. -/
theorem Open.succ (h : Open lines first n) (hLine : LineIs lines (n + 1) text)
    (hText : Header.closes text = false) : Open lines first (n + 1) := by
  intro m other hFirst hLast hOther
  rcases Nat.lt_or_ge n m with hNew | hOld
  · obtain rfl : m = n + 1 := Nat.le_antisymm hLast hNew
    rwa [hOther.unique hLine]
  · exact h m other hFirst hOld hOther

/-- Lines without a header mark stay without one if the next line has none either. -/
theorem Unmarked.succ (h : Unmarked lines first n) (hLine : LineIs lines (n + 1) text)
    (hText : Header.first? .host text = none) : Unmarked lines first (n + 1) := by
  intro m other hFirst hLast hOther
  rcases Nat.lt_or_ge n m with hNew | hOld
  · obtain rfl : m = n + 1 := Nat.le_antisymm hLast hNew
    rwa [hOther.unique hLine]
  · exact h m other hFirst hOld hOther

/-- A header that goes on up to some line goes on up to the next one if that is written as a later
line. -/
theorem LaterLines.succ (h : LaterLines lines first n) (hLine : LineIs lines (n + 1) text)
    (hText : Header.later? .host text = some remainder) : LaterLines lines first (n + 1) := by
  intro m hFirst hLast
  rcases Nat.lt_or_ge n m with hNew | hOld
  · obtain rfl : m = n + 1 := Nat.le_antisymm hLast hNew
    exact ⟨text, remainder, hLine, hText⟩
  · exact h m hFirst hOld

/-- A line that names a file. -/
theorem namesFile_of_includeLine (hPrev : prev ≤ n) (hLine : LineIs lines (n + 1) text)
    {name : String} {commented : Bool}
    (hText : Header.includeTarget? text = some (name, commented)) :
    NamesFile dir lines prev (n + 1) (some ⟨Path.join dir name, n + 1⟩) := by
  intro target
  constructor
  · rintro ⟨⟩
    exact ⟨Nat.lt_succ_of_le hPrev, text, name, commented, hLine, hText, rfl⟩
  · rintro ⟨-, other, otherName, otherCommented, hOther, hSame, rfl⟩
    rw [hOther.unique hLine, hText] at hSame
    cases hSame
    rfl

/-- A line that names none. -/
theorem namesFile_none (hLine : LineIs lines (n + 1) text)
    (hText : Header.includeTarget? text = none) : NamesFile dir lines prev (n + 1) none := by
  intro target
  constructor
  · nofun
  · rintro ⟨-, other, name, commented, hOther, hSome, -⟩
    rw [hOther.unique hLine, hText] at hSome
    cases hSome

/-- Nothing is known below the last line of a directive. -/
theorem readTo_outside (dir : String) (lines : List String) (n : Nat) :
    (Position.outside none).ReadTo dir lines n n := by
  refine ⟨Nat.le_refl n, fun m text hFirst hLast => ?_, fun target => ?_⟩
  · omega
  · constructor
    · nofun
    · rintro ⟨hLess, -⟩
      exact absurd hLess (Nat.lt_irrefl n)

/-- The mark of a first header line holds no comment end, so that the line ends a comment exactly if
what remains does. -/
theorem closes_first? (h : Header.first? .host text = some remainder) :
    Header.closes text = Header.closes remainder := by
  rw [Bool.eq_iff_iff, Header.closes_iff, Header.closes_iff]
  exact (Header.first?_host_iff.1 h).endsComment_iff

theorem closes_later? (h : Header.later? .host text = some remainder) :
    Header.closes text = Header.closes remainder := by
  rw [Bool.eq_iff_iff, Header.closes_iff, Header.closes_iff]
  exact (Header.later?_host_iff.1 h).endsComment_iff

/-- What comes of a line: nothing, and the place behind it is known, or a directive that ends
there. -/
def TurnsAtLine (dir : String) (lines : List String) (prev n : Nat) (found : Option Directive)
    (next : Position) : Prop :=
  (found = none ∧ next.ReadTo dir lines prev n) ∨
    ∃ d, found = some d ∧ d.Ranges dir lines prev ∧ d.lastLine = n ∧ next = .outside none

/-- A directive whose comment ends on a line. -/
theorem ranges_close (file : SourceFile) {h : OpenHeader} {first : Nat} {body : List String}
    (hStarts : StartsHeader dir lines prev h.headerLine h.include?)
    (hFirst : h.headerLine < first) (hLast : first + body.length = n + 2)
    (hLe : h.headerLine ≤ n + 1) (hOpen : Open lines h.headerLine n)
    (hLater : LaterLines lines h.headerLine (first - 1))
    (hMaximal : first ≤ n + 1 → ∀ text, LineIs lines first text →
      Header.later? .host text = none)
    (hLine : LineIs lines (n + 1) text) (hCloses : Header.closes text = true) :
    (close file h first body).Ranges dir lines prev ∧
      (close file h first body).lastLine = n + 1 := by
  have hEnd : (close file h first body).lastLine = n + 1 := by
    change first + body.length - 1 = n + 1
    omega
  refine ⟨⟨hStarts, hFirst, ?_, hLater, ?_, ?_, text, ?_, hCloses⟩, hEnd⟩
  · rwa [hEnd]
  · rwa [hEnd]
  · rw [hEnd, Nat.add_sub_cancel]
    exact hOpen
  · rwa [hEnd]

/-- A header line is read. If the comment ends on it, the directive has no script. -/
theorem headerStep_turnsAtLine {h : OpenHeader} {found : Option Directive} {next : Position}
    (hStarts : StartsHeader dir lines prev h.headerLine h.include?) (hFirst : h.headerLine ≤ n + 1)
    (hOpen : Open lines h.headerLine n) (hLater : LaterLines lines h.headerLine (n + 1))
    (hLine : LineIs lines (n + 1) text) (hCloses : Header.closes text = Header.closes remainder)
    (hStep : HeaderStep file .host (n + 1) remainder h (found, next)) :
    TurnsAtLine dir lines prev (n + 1) found next := by
  cases hStep with
  | more hText =>
      have hStill : Header.closes text = false := hCloses.trans (congrArg Prod.snd hText)
      exact .inl ⟨rfl, hStarts, hFirst, hOpen.succ hLine hStill, hLater⟩
  | @ends _ decls hText =>
      have hEnds : Header.closes text = true := hCloses.trans (congrArg Prod.snd hText)
      have hNothing : n + 2 + ([] : List String).length = n + 2 := rfl
      obtain ⟨hRanges, hLast⟩ := ranges_close file (h := h.declaring (n + 1) decls) hStarts
        (Nat.lt_succ_of_le hFirst) hNothing hFirst hOpen hLater
        (fun hLe => absurd hLe (Nat.not_succ_le_self _)) hLine hEnds
      exact .inr ⟨_, rfl, hRanges, hLast, rfl⟩

/-- A line of a script is read. -/
theorem bodyStep_turnsAtLine {b : OpenBody} {found : Option Directive} {next : Position}
    (h : b.ReadTo dir lines prev n) (hLine : LineIs lines (n + 1) text)
    (hStep : BodyStep file text b .host (found, next)) :
    TurnsAtLine dir lines prev (n + 1) found next := by
  have hLength := h.length
  have hLt := h.lt
  cases hStep with
  | more hOpen =>
      refine .inl ⟨rfl, h.starts, h.lt, ?_, h.still.succ hLine (hOpen rfl), h.later, h.maximal⟩
      change b.bodyLine + (b.body.length + 1) = n + 1 + 1
      omega
  | ends hCloses =>
      have hLast : b.bodyLine + (dedentLines (some bodyComment)
          ((Header.cutComment text).1 :: b.body).reverse).length = n + 2 := by
        simp only [dedentLines, List.length_map, List.length_reverse, List.length_cons]
        omega
      obtain ⟨hRanges, hEnd⟩ := ranges_close file h.starts h.lt hLast (by omega) h.still
        h.later (fun _ => h.maximal) hLine hCloses
      exact .inr ⟨_, rfl, hRanges, hEnd, rfl⟩

/-- A line is read. Outside of directives it names a file, starts a header, or does neither; below
a header line it goes on with the header, or is the first one of the script. -/
theorem step_turnsAtLine {place next : Position} {found : Option Directive}
    (hPlace : place.ReadTo dir lines prev n) (hLine : LineIs lines (n + 1) text)
    (hStep : LineStep dir file .host (n + 1) text place (found, next)) :
    TurnsAtLine dir lines prev (n + 1) found next := by
  cases hStep with
  | names hTarget =>
      obtain ⟨hPrev, hUnmarked, -⟩ := hPlace
      have hNot : Header.first? .host text = none := by
        rw [Option.eq_none_iff_forall_ne_some]
        intro remainder hFirst
        exact not_firstHeader_of_includeLine (Header.includeTarget?_iff.1 ⟨_, hTarget⟩)
          (Header.first?_host_iff.1 hFirst)
      exact .inl ⟨rfl, Nat.le_succ_of_le hPrev, hUnmarked.succ hLine hNot,
        namesFile_of_includeLine hPrev hLine hTarget⟩
  | passes hTarget hFirst =>
      obtain ⟨hPrev, hUnmarked, -⟩ := hPlace
      exact .inl ⟨rfl, Nat.le_succ_of_le hPrev, hUnmarked.succ hLine hFirst,
        namesFile_none hLine hTarget⟩
  | @opens pending remainder _ hFirst hStep =>
      obtain ⟨hPrev, hUnmarked, hNames⟩ := hPlace
      have hStarts : StartsHeader dir lines prev (n + 1) (pending.map (·.target)) :=
        ⟨Nat.lt_succ_of_le hPrev, ⟨text, remainder, hLine, hFirst⟩, hUnmarked, hNames⟩
      refine headerStep_turnsAtLine hStarts (Nat.le_refl _) ?_ ?_ hLine (closes_first? hFirst) hStep
      · exact fun m _ hLow hHigh => absurd (Nat.le_trans hLow hHigh) (Nat.not_succ_le_self n)
      · exact fun m hLow hHigh => absurd (Nat.lt_of_lt_of_le hLow hHigh) (Nat.lt_irrefl _)
  | goesOn hText hStep =>
      obtain ⟨hStarts, hFirst, hOpen, hLater⟩ := hPlace
      exact headerStep_turnsAtLine hStarts (Nat.le_succ_of_le hFirst) hOpen
        (hLater.succ hLine hText)
        hLine (closes_later? hText) hStep
  | @begins h _ hText _ hStep =>
      obtain ⟨hStarts, hFirst, hOpen, hLater⟩ := hPlace
      have hBegin : OpenBody.ReadTo { h with bodyLine := n + 1 } dir lines prev n :=
        ⟨hStarts, Nat.lt_succ_of_le hFirst, rfl, hOpen, hLater, fun other hOther => by
          rwa [hOther.unique hLine]⟩
      exact bodyStep_turnsAtLine hBegin hLine hStep
  | continues hStep => exact bodyStep_turnsAtLine hPlace hLine hStep

/-- Directives whose ranges follow each other below a line, with no header between them. -/
inductive Follow (dir : String) (lines : List String) : Nat → List Directive → Prop where
  | none {prev : Nat} (h : Unmarked lines (prev + 1) lines.length) : Follow dir lines prev []
  | next {prev : Nat} {d : Directive} {ds : List Directive} (h : d.Ranges dir lines prev)
      (hRest : Follow dir lines d.lastLine ds) : Follow dir lines prev (d :: ds)

/-- The end of a host file, at which no comment may be open. -/
theorem finish_follow {place : Position} {ds : List Directive}
    (hPlace : place.ReadTo dir lines prev lines.length)
    (hStep : EndStep file (lines.length + 1) .host place ds) : Follow dir lines prev ds := by
  cases hStep with
  | outside => exact .none hPlace.2.1

/-- The directives found from some line on follow each other. By induction on the lines still to be
read; what is known of the place is what carries over. -/
theorem directivesFrom_follow {done rest : List String} {place : Position} {ds : List Directive}
    (hLines : lines = done ++ rest) (hPlace : place.ReadTo dir lines prev done.length)
    (hRun : directivesFrom dir file .host (done.length + 1) rest place warnings = .ok ds after) :
    Follow dir lines prev ds := by
  induction rest generalizing done place prev ds warnings after with
  | nil =>
      rw [List.append_nil] at hLines
      obtain rfl := hLines
      exact finish_follow hPlace (finish_ok hRun)
  | cons text rest ih =>
      obtain ⟨found, next, more, _, hStep, hMore, rfl⟩ := directivesFrom_ok hRun
      have hLength : (done ++ [text]).length = done.length + 1 := List.length_append
      have hNext : lines = (done ++ [text]) ++ rest := by rw [hLines, List.append_assoc]; rfl
      rw [← hLength] at hMore
      rcases step_turnsAtLine hPlace (lineIs_of_append hLines) hStep with
        ⟨rfl, hReads⟩ | ⟨d, rfl, hRanges, hLast, rfl⟩
      · exact ih hNext (hLength ▸ hReads) hMore
      · rw [← hLength] at hLast
        exact .next hRanges (ih hNext (hLast ▸ readTo_outside dir lines _) hMore)

/-- A header that cannot be read has a fault of its own. A missing end of the comment is found only
behind the last line. -/
theorem code_of_parse {fault : HeaderFault} (h : Header.parse remainder = .error fault) :
    fault.code ≠ .unterminatedBody := by
  unfold Header.parse at h
  dsimp only at h
  split at h
  · cases h
  · split at h
    · cases h
      nofun
    · split at h
      · cases h
        nofun
      · split at h
        next hFault =>
          obtain rfl := Except.error.inj h
          obtain ⟨name, -, hName⟩ := List.exists_of_findSome?_eq_some hFault
          unfold Header.nameFault? at hName
          split at hName
          · cases hName
            nofun
          · split at hName
            · cases hName
              nofun
            · cases hName
        · cases h

/-- Taking over the declarations of a line never reports that a body has no end. -/
theorem code_of_addDeclarations {line : Nat} {h : OpenHeader} {failure : Diagnostic}
    (hRun : addDeclarations file line remainder h warnings = .error failure after) :
    failure.code ≠ .unterminatedBody := by
  cases hParse : Header.parse remainder with
  | error fault =>
      rw [addDeclarations, hParse] at hRun
      obtain ⟨rfl, -⟩ := (throw_error_iff _ _ _ _).1 hRun
      exact code_of_parse hParse
  | ok decls =>
      rw [addDeclarations, hParse] at hRun
      cases hRun

/-- Closing a header may find names declared twice, but it never reports that a body has no end. -/
theorem code_of_checkHeader {h : OpenHeader} {failure : Diagnostic}
    (hRun : checkHeader file h warnings = .error failure after) :
    failure.code ≠ .unterminatedBody := by
  cases hRepeated : Header.repeated? h.decls with
  | none =>
      rw [checkHeader, hRepeated] at hRun
      cases hRun
  | some found =>
      rw [checkHeader, hRepeated] at hRun
      obtain ⟨rfl, -⟩ := (throw_error_iff _ _ _ _).1 hRun
      obtain ⟨group, -, hGroup⟩ := List.exists_of_findSome?_eq_some hRepeated
      dsimp only at hGroup
      split at hGroup
      · cases hGroup
        intro hCode
        cases hCode
      · cases hGroup

/-- No line of a header reports that a body has no end, whether the header goes on or closes
there. -/
theorem code_of_headerStep {line : Nat} {h : OpenHeader} {failure : Diagnostic}
    (hRun : headerStep file .host line remainder h warnings = .error failure after) :
    failure.code ≠ .unterminatedBody := by
  unfold headerStep at hRun
  cases hText : headerText .host remainder with
  | mk headed closed =>
      rw [hText] at hRun
      rcases (bind_error_iff _ _ _ _ _).1 hRun with hAdd | ⟨opened, _, -, hRun⟩
      · exact code_of_addDeclarations hAdd
      · cases closed with
        | false => cases hRun
        | true =>
            simp only [if_true] at hRun
            rcases (bind_error_iff _ _ _ _ _).1 hRun with hCheck | ⟨_, _, -, hRun⟩
            · exact code_of_checkHeader hCheck
            · cases hRun

/-- Lines are refused for what is wrong with a header, and never because a comment is open. -/
theorem code_of_step {line : Nat} {place : Position} {failure : Diagnostic}
    (hRun : step dir file .host line text place warnings = .error failure after) :
    failure.code ≠ .unterminatedBody := by
  cases place with
  | outside pending =>
      cases hTarget : Header.includeTarget? text with
      | some target =>
          simp only [step, hTarget] at hRun
          cases hRun
      | none =>
          cases hFirst : Header.first? .host text with
          | some remainder =>
              simp only [step, hTarget, hFirst] at hRun
              exact code_of_headerStep hRun
          | none =>
              simp only [step, hTarget, hFirst] at hRun
              rcases (bind_error_iff _ _ _ _ _).1 hRun with hWarn | ⟨_, _, -, hRun⟩
              · cases pending with
                | none => cases hWarn
                | some p =>
                    unfold warnUnused at hWarn
                    dsimp only at hWarn
                    split at hWarn <;> cases hWarn
              · cases hRun
  | header h =>
      cases hLater : Header.later? .host text with
      | some remainder =>
          simp only [step, hLater] at hRun
          exact code_of_headerStep hRun
      | none =>
          simp only [step, hLater] at hRun
          rcases (bind_error_iff _ _ _ _ _).1 hRun with hCheck | ⟨_, _, -, hRun⟩
          · exact code_of_checkHeader hCheck
          · cases hRun
  | body b => cases hRun

/-- A header starts on a line, and no comment ends there or below. -/
def NeverEnds (lines : List String) (n : Nat) : Prop :=
  (∃ text remainder, LineIs lines n text ∧ Header.first? .host text = some remainder) ∧
    Open lines n lines.length

/-- If the lines are over and a body has no end, the failure names a line where a header starts and
below which no comment ends. -/
theorem finish_neverEnds {place : Position} {failure : Diagnostic}
    (hPlace : place.ReadTo dir lines prev lines.length)
    (hRun : finish file .host (lines.length + 1) place warnings = .error failure after)
    (hCode : failure.code = .unterminatedBody) : ∃ n, NeverEnds lines n ∧
      failure = HeaderFault.unterminated.diagnostic file [n] := by
  cases place with
  | outside pending => cases hRun
  | header h =>
      rcases (bind_error_iff _ _ _ _ _).1 hRun with hCheck | ⟨_, _, -, hRun⟩
      · exact absurd hCode (code_of_checkHeader hCheck)
      · obtain ⟨rfl, -⟩ := (throw_error_iff _ _ _ _).1 hRun
        obtain ⟨hStarts, -, hOpen, -⟩ := hPlace
        exact ⟨h.headerLine, ⟨hStarts.marked, hOpen⟩, rfl⟩
  | body b =>
      obtain ⟨rfl, -⟩ := (throw_error_iff _ _ _ _).1 hRun
      exact ⟨b.headerLine, ⟨hPlace.starts.marked, hPlace.still⟩, rfl⟩

/-- A missing end of a body is reported only where there is none: the header it names has no comment
end on any line below. -/
theorem directivesFrom_neverEnds {done rest : List String} {place : Position}
    {failure : Diagnostic} (hLines : lines = done ++ rest)
    (hPlace : place.ReadTo dir lines prev done.length)
    (hRun : directivesFrom dir file .host (done.length + 1) rest place warnings =
      .error failure after) (hCode : failure.code = .unterminatedBody) :
    ∃ n, NeverEnds lines n ∧ failure = HeaderFault.unterminated.diagnostic file [n] := by
  induction rest generalizing done place prev warnings after with
  | nil =>
      rw [List.append_nil] at hLines
      obtain rfl := hLines
      exact finish_neverEnds hPlace hRun hCode
  | cons text rest ih =>
      rcases (bind_error_iff _ _ _ _ _).1 hRun with hStep | ⟨⟨found, next⟩, _, hStep, hRun⟩
      · exact absurd hCode (code_of_step hStep)
      · rcases (bind_error_iff _ _ _ _ _).1 hRun with hMore | ⟨_, _, -, hRun⟩
        · have hLength : (done ++ [text]).length = done.length + 1 := List.length_append
          have hNext : lines = (done ++ [text]) ++ rest := by rw [hLines, List.append_assoc]; rfl
          rw [← hLength] at hMore
          rcases step_turnsAtLine hPlace (lineIs_of_append hLines) (step_ok hStep) with
            ⟨rfl, hReads⟩ | ⟨d, rfl, hRanges, hLast, rfl⟩
          · exact ih hNext (hLength ▸ hReads) hMore
          · exact ih hNext (readTo_outside dir lines _) hMore
        · cases hRun

/-- Ranges that follow each other are below each other. -/
theorem Follow.pairwise {ds : List Directive} (h : Follow dir lines prev ds) :
    (∀ d ∈ ds, prev < d.headerLine) ∧ ds.Pairwise fun d e => d.lastLine < e.headerLine := by
  induction h with
  | none _ => exact ⟨by simp, .nil⟩
  | next h _ ih =>
      refine ⟨fun e he => ?_, .cons ih.1 ih.2⟩
      rcases List.mem_cons.1 he with rfl | hRest
      · exact h.starts.lt
      · exact Nat.lt_trans (Nat.lt_of_lt_of_le h.starts.lt h.header_le) (ih.1 e hRest)

/-- Every line that starts a header is in one of the ranges. -/
theorem Follow.covered {ds : List Directive} (h : Follow dir lines prev ds) (hPrev : prev < n)
    (hLine : LineIs lines n text) (hFirst : Header.first? .host text = some remainder) :
    ∃ d ∈ ds, d.headerLine ≤ n ∧ n ≤ d.lastLine := by
  induction h with
  | none hUnmarked =>
      rw [hUnmarked n text hPrev hLine.le_length hLine] at hFirst
      cases hFirst
  | @next prev d ds h _ ih =>
      by_cases hAbove : n ≤ d.headerLine - 1
      · rw [h.starts.unmarked n text hPrev hAbove hLine] at hFirst
        cases hFirst
      · by_cases hIn : n ≤ d.lastLine
        · exact ⟨d, List.mem_cons_self, by omega, hIn⟩
        · obtain ⟨e, he, hRange⟩ := ih (Nat.not_le.1 hIn)
          exact ⟨e, List.mem_cons_of_mem _ he, hRange⟩

/-- Each directive starts below the last line of the one before it. -/
theorem Follow.ranges {ds : List Directive} (h : Follow dir lines prev ds) :
    ∀ d ∈ ds, ∃ above, d.Ranges dir lines above ∧ prev ≤ above ∧
      (above = prev ∨ ∃ e ∈ ds, e.lastLine = above) ∧
      ∀ e ∈ ds, e.lastLine ≤ above ∨ d.headerLine ≤ e.headerLine := by
  induction h with
  | none _ => simp
  | @next prev d ds h hRest ih =>
      obtain ⟨hBelow, -⟩ := hRest.pairwise
      intro e he
      rcases List.mem_cons.1 he with rfl | he
      · refine ⟨prev, h, Nat.le_refl _, .inl rfl, fun f hf => .inr ?_⟩
        rcases List.mem_cons.1 hf with rfl | hf
        · exact Nat.le_refl _
        · exact Nat.le_of_lt (Nat.lt_of_le_of_lt h.header_le (hBelow f hf))
      · obtain ⟨above, hRanges, hLast, hAbove, hOthers⟩ := ih e he
        have hPrev := h.starts.lt
        have hHeader := h.header_le
        refine ⟨above, hRanges, by omega, .inr ?_, fun f hf => ?_⟩
        · rcases hAbove with rfl | ⟨f, hf, hEnd⟩
          · exact ⟨d, List.mem_cons_self, rfl⟩
          · exact ⟨f, List.mem_cons_of_mem _ hf, hEnd⟩
        · rcases List.mem_cons.1 hf with rfl | hf
          · exact .inl hLast
          · exact hOthers f hf

end Scan

namespace Directive

variable {d : Directive} {dir : String} {lines : List String}

/-- The lines of a host file that a directive takes: a header, as many header lines as follow it,
and the lines of its script, up to the first end of a comment. -/
structure TakesLines (d : Directive) (lines : List String) : Prop where
  opens : ∃ line remainder, LineIs lines d.headerLine line ∧ FirstHeader line remainder
  header_lt : d.headerLine < d.bodyLine
  header : ∀ n, d.headerLine < n → n < d.bodyLine → ∃ line remainder,
    LineIs lines n line ∧ LaterHeader line remainder
  /-- The header goes on as long as there are header lines, or up to the end of the comment. -/
  maximal : d.bodyLine ≤ d.lastLine → ∀ line remainder, LineIs lines d.bodyLine line →
    ¬ LaterHeader line remainder
  header_le : d.headerLine ≤ d.lastLine
  closes : ∃ line, LineIs lines d.lastLine line ∧ EndsComment line
  still : ∀ n line, d.headerLine ≤ n → n < d.lastLine → LineIs lines n line → ¬ EndsComment line
  length : d.bodyLine + d.body.length = d.lastLine + 1
  body : ∀ k shown, d.body[k]? = some shown → ∃ line,
    LineIs lines (d.bodyLine + k) line ∧ ShownAs line shown

/-- The file that a directive generates is the one that is named on the line above its header,
unless another directive takes that line. -/
def NamedAbove (d : Directive) (dir : String) (lines : List String) (ds : List Directive) : Prop :=
  ∀ target, d.include? = some target ↔
    (∃ line name, LineIs lines (d.headerLine - 1) line ∧ IncludeLine line name ∧
      target = ⟨Path.join dir name, d.headerLine - 1⟩) ∧
    ∀ e ∈ ds, ¬ (e.headerLine ≤ d.headerLine - 1 ∧ d.headerLine - 1 ≤ e.lastLine)

/-- The lines of a script are those of its source. -/
theorem SpansLines.exists_shown {last k : Nat} {shown : String} (h : d.SpansLines .host last)
    (hShown : d.body[k]? = some shown) :
    ∃ line, LineIs d.file.lines (d.bodyLine + k) line ∧ ShownAs line shown := by
  obtain ⟨indent, hBody⟩ := h.body_eq
  rw [hBody, List.getElem?_map] at hShown
  obtain ⟨line, hLine, rfl⟩ := Option.map_eq_some_iff.1 hShown
  have hPos := h.header_lt
  refine ⟨line, ⟨by omega, ?_⟩, shownAs_scriptLine indent line⟩
  rw [List.getElem?_drop, List.getElem?_take] at hLine
  split at hLine
  · rw [← hLine]
    congr 1
    omega
  · cases hLine

/-- A directive whose ranges stand in the file and that spans lines up to its last one takes exactly
these lines. -/
theorem Ranges.takesLines {above last : Nat} (h : d.Ranges dir d.file.lines above)
    (hSpans : d.SpansLines .host last) : d.TakesLines d.file.lines where
  opens := by
    obtain ⟨line, remainder, hLine, hFirst⟩ := h.starts.marked
    exact ⟨line, remainder, hLine, Header.first?_host_iff.1 hFirst⟩
  header_lt := h.header_lt
  header n hLow hHigh := by
    obtain ⟨line, remainder, hLine, hLater⟩ := h.later n hLow (Nat.le_sub_one_of_lt hHigh)
    exact ⟨line, remainder, hLine, Header.later?_host_iff.1 hLater⟩
  maximal hLe line remainder hLine hLater := by
    have hNone := h.maximal hLe line hLine
    rw [Header.later?_host_iff.2 hLater] at hNone
    cases hNone
  header_le := h.header_le
  closes := by
    obtain ⟨line, hLine, hCloses⟩ := h.closes
    exact ⟨line, hLine, Header.closes_iff.1 hCloses⟩
  still n line hLow hHigh hLine hEnds := by
    have hOpen := h.still n line hLow (Nat.le_sub_one_of_lt hHigh) hLine
    rw [Header.closes_iff.2 hEnds] at hOpen
    cases hOpen
  length := by
    have hLt := h.header_lt
    rw [lastLine]
    omega
  body _ _ hShown := hSpans.exists_shown hShown

end Directive

/-- Each directive that a scan has found generates the file that is named right above its header,
unless another directive takes that line. -/
theorem Scan.Follow.namedAbove {dir : String} {lines : List String} {ds : List Directive}
    (h : Follow dir lines 0 ds) {d : Directive} (hd : d ∈ ds) : d.NamedAbove dir lines ds := by
  obtain ⟨above, hRanges, -, hAbove, hOthers⟩ := h.ranges d hd
  have hLt := hRanges.starts.lt
  intro target
  rw [hRanges.starts.names target]
  constructor
  · rintro ⟨hBelow, line, name, commented, hLine, hName, hTarget⟩
    refine ⟨⟨line, name, hLine, Header.includeTarget?_iff.1 ⟨commented, hName⟩, hTarget⟩, ?_⟩
    rintro e he ⟨hLow, hHigh⟩
    rcases hOthers e he with hFirst | hLater <;> omega
  · rintro ⟨⟨line, name, hLine, hInclude, hTarget⟩, hFree⟩
    obtain ⟨commented, hName⟩ := Header.includeTarget?_iff.2 hInclude
    refine ⟨?_, line, name, commented, hLine, hName, hTarget⟩
    -- The line is not the last one of the directive above, or else it would be in its range.
    have hNe : above ≠ d.headerLine - 1 := by
      rintro hSame
      rcases hAbove with rfl | ⟨e, he, hLast⟩
      · exact absurd hLine.1 (by omega)
      · obtain ⟨_, hRange, -⟩ := h.ranges e he
        have hHeader := hRange.header_le
        exact hFree e he (by omega)
    omega

/-- Scanning a host file. The directives take lines one below the other, and every line that starts
a header is taken by one of them; the file that a directive generates is named right above it. The
scan is refused for a comment without an end only where a header is not followed by any end of a
comment. -/
theorem directives_take_lines (dir : String) {source : SourceUnit} (hHost : source.mode = .host)
    (warnings : Array String) :
    (∀ ds after, Scan.directives dir source warnings = .ok ds after →
      ds.Pairwise (fun d e => d.lastLine < e.headerLine) ∧
      (∀ n line remainder, LineIs source.file.lines n line → FirstHeader line remainder →
        ∃ d ∈ ds, d.headerLine ≤ n ∧ n ≤ d.lastLine) ∧
      ∀ d ∈ ds, d.file = source.file ∧ d.TakesLines source.file.lines ∧
        d.NamedAbove dir source.file.lines ds) ∧
    ∀ failure after, Scan.directives dir source warnings = .error failure after →
      failure.code = .unterminatedBody → ∃ n line remainder,
        LineIs source.file.lines n line ∧ FirstHeader line remainder ∧
        (∀ m other, n ≤ m → LineIs source.file.lines m other → ¬ EndsComment other) ∧
        failure = HeaderFault.unterminated.diagnostic source.file [n] := by
  have hStart := Scan.readTo_outside dir source.file.lines 0
  have hBehind : (Scan.Position.outside none).Behind source.mode [] := trivial
  refine ⟨fun ds after hRun => ?_, fun failure after hRun hCode => ?_⟩
  · have hPlaced : ∀ d ∈ ds, d.file = source.file ∧ d.PlacedInSource source.mode :=
      Scan.directivesFrom_placedInSource hBehind rfl hRun
    rw [Scan.directives, hHost] at hRun
    have hFollow := Scan.directivesFrom_follow (List.nil_append _).symm hStart hRun
    refine ⟨hFollow.pairwise.2, fun n line remainder hLine hFirst => ?_, fun d hd => ?_⟩
    · exact hFollow.covered hLine.1 hLine (Header.first?_host_iff.2 hFirst)
    · obtain ⟨hFile, hPlace⟩ := hPlaced d hd
      obtain ⟨last, hSpans⟩ := hPlace.spans
      obtain ⟨above, hRanges, -⟩ := hFollow.ranges d hd
      rw [← hFile] at hRanges ⊢
      rw [hHost] at hSpans
      refine ⟨rfl, hRanges.takesLines hSpans, ?_⟩
      rw [hFile]
      exact hFollow.namedAbove hd
  · rw [Scan.directives, hHost] at hRun
    obtain ⟨n, ⟨⟨line, remainder, hLine, hFirst⟩, hOpen⟩, hFailure⟩ :=
      Scan.directivesFrom_neverEnds (List.nil_append _).symm hStart hRun hCode
    refine ⟨n, line, remainder, hLine, Header.first?_host_iff.1 hFirst, ?_, hFailure⟩
    intro m other hLow hOther hEnds
    have hStill := hOpen m other hLow hOther.le_length hOther
    rw [Header.closes_iff.2 hEnds] at hStill
    cases hStill

/-- Two directives; a file is named for the first one. -/
def twoDirectives : SourceUnit :=
  .ofText "a.c" "#include <o>\n/*#meta\n#meta\nlet\n*/\n/*#meta*/"

/-- A directive without an end. -/
def openDirective : SourceUnit := .ofText "a.c" "*/\n/*#meta\nlet"

/-- One source holds two directives, of which the first has a file named above it; in another source
the comment of a directive never ends. -/
theorem directives_take_lines_twoDirectives :
    (twoDirectives.mode = .host ∧ openDirective.mode = .host) ∧
    (∃ ds after, Scan.directives "out" twoDirectives #[] = .ok ds after ∧ ds.length = 2 ∧
      ds.Pairwise (fun d e => d.lastLine < e.headerLine) ∧
      ∀ d ∈ ds, d.TakesLines twoDirectives.file.lines ∧
        d.NamedAbove "out" twoDirectives.file.lines ds) ∧
    ∃ failure after, Scan.directives "out" openDirective #[] = .error failure after ∧
      failure.code = .unterminatedBody ∧
      ∃ n, failure = HeaderFault.unterminated.diagnostic openDirective.file [n] := by
  have hHost : twoDirectives.mode = .host ∧ openDirective.mode = .host := by decide
  have hRun : ((Scan.directives "out" twoDirectives).run' #[]).any (·.length == 2) = true := by
    decide +kernel
  refine ⟨hHost, ?_, ?_⟩
  · obtain ⟨hTake, -⟩ := directives_take_lines "out" hHost.1 #[]
    obtain ⟨ds, hds, hLength⟩ := (Option.any_eq_true _ _).1 hRun
    obtain ⟨after, hScan⟩ := run'_eq_some_iff.1 hds
    obtain ⟨hBelow, -, hEach⟩ := hTake ds after hScan
    exact ⟨ds, after, hScan, eq_of_beq hLength, hBelow, fun d hd => (hEach d hd).2⟩
  · obtain ⟨-, hRefused⟩ := directives_take_lines "out" hHost.2 #[]
    have hCode : (thrown? (Scan.directives "out" openDirective #[])).map (·.code) =
        some .unterminatedBody := by decide +kernel
    obtain ⟨failure, hFailure, hCode⟩ := Option.map_eq_some_iff.1 hCode
    obtain ⟨after, hScan⟩ := thrown?_eq_some_iff.1 hFailure
    obtain ⟨n, -, -, -, -, -, hPlace⟩ := hRefused failure after hScan hCode
    exact ⟨failure, after, hScan, hCode, n, hPlace⟩

end Metagen
