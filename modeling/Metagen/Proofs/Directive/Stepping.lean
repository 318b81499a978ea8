import Metagen.Directive.Scan
import Metagen.Proofs.Steps

/-! All that a scan for directives does where it succeeds: with a header line, with a line of a
script, with any line, and at the end of a source. What a scan promises is shown by cases of
these. -/

namespace Metagen

open Text

namespace Scan

variable {dir : String} {file : SourceFile} {mode : ScanMode} {line : Nat} {text remainder : String}
  {place : Position} {r : Option Directive × Position} {warnings after : Array String}

/-- A header with the declarations of one more line. -/
def OpenHeader.declaring (h : OpenHeader) (line : Nat) (decls : List (DeclKind × String)) :
    OpenHeader :=
  { h with decls := h.decls ++ decls.map fun (kind, name) => ⟨kind, name, line⟩ }

/-- The declarations of an open header come from the lines before or from the line that was read
last. -/
theorem OpenHeader.mem_declaring {h : OpenHeader} {decls : List (DeclKind × String)}
    {decl : Declaration} (hDecl : decl ∈ (h.declaring line decls).decls) :
    decl ∈ h.decls ∨ (decl.kind, decl.name) ∈ decls := by
  refine (List.mem_append.1 hDecl).imp id fun hNew => ?_
  obtain ⟨new, hMem, rfl⟩ := List.mem_map.1 hNew
  exact hMem

/-- Reading a header line: the header goes on, or ends with its comment. -/
inductive HeaderStep (file : SourceFile) (mode : ScanMode) (line : Nat) (remainder : String)
    (h : OpenHeader) : Option Directive × Position → Prop where
  | more {headed : String} {decls : List (DeclKind × String)}
      (hText : headerText mode remainder = (headed, false))
      (hParse : Header.parse headed = .ok decls) :
      HeaderStep file mode line remainder h (none, .header (h.declaring line decls))
  | ends {headed : String} {decls : List (DeclKind × String)}
      (hText : headerText mode remainder = (headed, true))
      (hParse : Header.parse headed = .ok decls)
      (hChecked : Header.repeated? (h.declaring line decls).decls = none) :
      HeaderStep file mode line remainder h
        (some (close file (h.declaring line decls) (line + 1) []), .outside none)

/-- Reading a line of a script: the script goes on, or ends with the comment around it. -/
inductive BodyStep (file : SourceFile) (text : String) (b : OpenBody) :
    ScanMode → Option Directive × Position → Prop where
  | more {mode : ScanMode} (hOpen : mode = .host → (Header.cutComment text).2 = false) :
      BodyStep file text b mode (none, .body { b with body := text :: b.body })
  | ends (hCloses : (Header.cutComment text).2 = true) :
      BodyStep file text b .host (some (close file b.toOpenHeader b.bodyLine
        (dedentLines (some bodyComment) ((Header.cutComment text).1 :: b.body).reverse)),
        .outside none)

/-- Reading a line: which line it is to the place where it stands, and what comes of it. -/
inductive LineStep (dir : String) (file : SourceFile) (mode : ScanMode) (line : Nat)
    (text : String) : Position → Option Directive × Position → Prop where
  | names {pending : Option Pending} {target : String} {commented : Bool}
      (hTarget : Header.includeTarget? text = some (target, commented)) :
      LineStep dir file mode line text (.outside pending)
        (none, .outside (some ⟨⟨Path.join dir target, line⟩, commented⟩))
  | passes {pending : Option Pending} (hTarget : Header.includeTarget? text = none)
      (hFirst : Header.first? mode text = none) :
      LineStep dir file mode line text (.outside pending) (none, .outside none)
  | opens {pending : Option Pending} {remainder : String} {r : Option Directive × Position}
      (hFirst : Header.first? mode text = some remainder)
      (hStep : HeaderStep file mode line remainder
        { headerLine := line, include? := pending.map (·.target) } r) :
      LineStep dir file mode line text (.outside pending) r
  | goesOn {h : OpenHeader} {remainder : String} {r : Option Directive × Position}
      (hLater : Header.later? mode text = some remainder)
      (hStep : HeaderStep file mode line remainder h r) :
      LineStep dir file mode line text (.header h) r
  | begins {h : OpenHeader} {r : Option Directive × Position}
      (hLater : Header.later? mode text = none) (hChecked : Header.repeated? h.decls = none)
      (hStep : BodyStep file text { h with bodyLine := line } mode r) :
      LineStep dir file mode line text (.header h) r
  | continues {b : OpenBody} {r : Option Directive × Position}
      (hStep : BodyStep file text b mode r) : LineStep dir file mode line text (.body b) r

/-- The end of a source. Only scripts may end with it. -/
inductive EndStep (file : SourceFile) (line : Nat) : ScanMode → Position → List Directive →
    Prop where
  | outside {mode : ScanMode} {pending : Option Pending} :
      EndStep file line mode (.outside pending) []
  | header {h : OpenHeader} (hChecked : Header.repeated? h.decls = none) :
      EndStep file line .script (.header h) [close file h line []]
  | body {b : OpenBody} :
      EndStep file line .script (.body b) [close file b.toOpenHeader b.bodyLine b.body.reverse]

/-- A header line that is taken over has been read, and its declarations are added behind those of
the lines before it. -/
theorem addDeclarations_ok {h next : OpenHeader}
    (hRun : addDeclarations file line remainder h warnings = .ok next after) :
    ∃ decls, Header.parse remainder = .ok decls ∧ next = h.declaring line decls := by
  cases hParse : Header.parse remainder with
  | error fault =>
      rw [addDeclarations, hParse] at hRun
      exact ((throw_ok_iff _ _ _ _).1 hRun).elim
  | ok decls =>
      rw [addDeclarations, hParse] at hRun
      exact ⟨decls, rfl, ((pure_ok_iff _ _ _ _).1 hRun).1.symm⟩

/-- A header that closes well declares no name twice in the same way. -/
theorem checkHeader_ok {h : OpenHeader} (hRun : checkHeader file h warnings = .ok () after) :
    Header.repeated? h.decls = none := by
  cases hRepeated : Header.repeated? h.decls with
  | none => rfl
  | some fault =>
      rw [checkHeader, hRepeated] at hRun
      exact ((throw_ok_iff _ _ _ _).1 hRun).elim

/-- A header line that does not fail is a step of its header: it goes on, closes, or starts the
body. -/
theorem headerStep_ok {h : OpenHeader}
    (hRun : headerStep file mode line remainder h warnings = .ok r after) :
    HeaderStep file mode line remainder h r := by
  unfold headerStep at hRun
  cases hText : headerText mode remainder with
  | mk headed closed =>
      rw [hText] at hRun
      obtain ⟨opened, _, hAdd, hRun⟩ := (bind_ok_iff _ _ _ _ _).1 hRun
      obtain ⟨decls, hParse, rfl⟩ := addDeclarations_ok hAdd
      cases closed with
      | false =>
          rw [if_neg Bool.false_ne_true] at hRun
          obtain ⟨rfl, -⟩ := (pure_ok_iff _ _ _ _).1 hRun
          exact .more hText hParse
      | true =>
          rw [if_pos rfl] at hRun
          obtain ⟨⟨⟩, _, hCheck, hRun⟩ := (bind_ok_iff _ _ _ _ _).1 hRun
          obtain ⟨rfl, -⟩ := (pure_ok_iff _ _ _ _).1 hRun
          exact .ends hText hParse (checkHeader_ok hCheck)

/-- A line of a body either belongs to the body or ends it; there is no third way. -/
theorem bodyStep_cases (file : SourceFile) (mode : ScanMode) (text : String) (b : OpenBody) :
    BodyStep file text b mode (bodyStep file mode text b) := by
  unfold bodyStep
  cases mode with
  | script => exact .more nofun
  | host =>
      cases hText : Header.cutComment text with
      | mk before closed =>
          cases closed with
          | false => exact .more fun _ => congrArg Prod.snd hText
          | true =>
              have hEnds : BodyStep file text b .host _ := .ends (congrArg Prod.snd hText)
              rwa [hText] at hEnds

/-- A line that is read. -/
theorem step_ok (hRun : step dir file mode line text place warnings = .ok r after) :
    LineStep dir file mode line text place r := by
  cases place with
  | outside pending =>
      cases hTarget : Header.includeTarget? text with
      | some found =>
          simp only [step, hTarget] at hRun
          obtain ⟨rfl, -⟩ := (pure_ok_iff _ _ _ _).1 hRun
          exact .names hTarget
      | none =>
          cases hFirst : Header.first? mode text with
          | some remainder =>
              simp only [step, hTarget, hFirst] at hRun
              exact .opens hFirst (headerStep_ok hRun)
          | none =>
              simp only [step, hTarget, hFirst] at hRun
              obtain ⟨_, _, -, hRun⟩ := (bind_ok_iff _ _ _ _ _).1 hRun
              obtain ⟨rfl, -⟩ := (pure_ok_iff _ _ _ _).1 hRun
              exact .passes hTarget hFirst
  | header h =>
      cases hLater : Header.later? mode text with
      | some remainder =>
          simp only [step, hLater] at hRun
          exact .goesOn hLater (headerStep_ok hRun)
      | none =>
          simp only [step, hLater] at hRun
          obtain ⟨⟨⟩, _, hCheck, hRun⟩ := (bind_ok_iff _ _ _ _ _).1 hRun
          obtain ⟨rfl, -⟩ := (pure_ok_iff _ _ _ _).1 hRun
          exact .begins hLater (checkHeader_ok hCheck) (bodyStep_cases _ _ _ _)
  | body b =>
      obtain ⟨rfl, -⟩ := (pure_ok_iff _ _ _ _).1 hRun
      exact .continues (bodyStep_cases _ _ _ _)

/-- A source that ends. -/
theorem finish_ok {ds : List Directive}
    (hRun : finish file mode line place warnings = .ok ds after) :
    EndStep file line mode place ds := by
  cases place with
  | outside pending =>
      obtain ⟨rfl, -⟩ := (pure_ok_iff _ _ _ _).1 hRun
      exact .outside
  | header h =>
      obtain ⟨⟨⟩, _, hCheck, hRun⟩ := (bind_ok_iff _ _ _ _ _).1 hRun
      cases mode with
      | host => exact ((throw_ok_iff _ _ _ _).1 hRun).elim
      | script =>
          obtain ⟨rfl, -⟩ := (pure_ok_iff _ _ _ _).1 hRun
          exact .header (checkHeader_ok hCheck)
  | body b =>
      cases mode with
      | host => exact ((throw_ok_iff _ _ _ _).1 hRun).elim
      | script =>
          obtain ⟨rfl, -⟩ := (pure_ok_iff _ _ _ _).1 hRun
          exact .body

/-- One line, and then the others. -/
theorem directivesFrom_ok {texts : List String} {ds : List Directive}
    (hRun : directivesFrom dir file mode line (text :: texts) place warnings = .ok ds after) :
    ∃ found next more between, LineStep dir file mode line text place (found, next) ∧
      directivesFrom dir file mode (line + 1) texts next between = .ok more after ∧
      ds = found.toList ++ more := by
  obtain ⟨⟨found, next⟩, between, hStep, hRun⟩ := (bind_ok_iff _ _ _ _ _).1 hRun
  obtain ⟨more, _, hMore, hRun⟩ := (bind_ok_iff _ _ _ _ _).1 hRun
  obtain ⟨rfl, rfl⟩ := (pure_ok_iff _ _ _ _).1 hRun
  exact ⟨found, next, more, between, step_ok hStep, hMore, rfl⟩

/-- What is found in several sources has been found in each of them, one after the other. -/
theorem mapM_directives_ok {sources : List SourceUnit} {found : List (List Directive)}
    (hRun : sources.mapM (directives dir) warnings = .ok found after) :
    ∀ ds ∈ found, ∃ source ∈ sources, ∃ before behind,
      directives dir source before = .ok ds behind := by
  induction sources generalizing found warnings with
  | nil =>
      obtain ⟨rfl, -⟩ := (pure_ok_iff _ _ _ _).1 hRun
      simp
  | cons source sources ih =>
      rw [List.mapM_cons] at hRun
      obtain ⟨first, _, hFirst, hRun⟩ := (bind_ok_iff _ _ _ _ _).1 hRun
      obtain ⟨others, _, hOthers, hRun⟩ := (bind_ok_iff _ _ _ _ _).1 hRun
      obtain ⟨rfl, rfl⟩ := (pure_ok_iff _ _ _ _).1 hRun
      intro ds hds
      rcases List.mem_cons.1 hds with rfl | hds
      · exact ⟨source, List.mem_cons_self, _, _, hFirst⟩
      · obtain ⟨other, hOther, hFound⟩ := ih hOthers ds hds
        exact ⟨other, List.mem_cons_of_mem _ hOther, hFound⟩

end Scan

/-- Directives that a scan finds are found in one of the sources. -/
theorem scan_ok {dir : String} {sources : List SourceUnit} {ds : List Directive}
    {warnings after : Array String} (hRun : scan dir sources warnings = .ok ds after) :
    ∀ d ∈ ds, ∃ source ∈ sources, ∃ found before behind,
      Scan.directives dir source before = .ok found behind ∧ d ∈ found := by
  obtain ⟨found, _, hFound, hRun⟩ := (bind_ok_iff _ _ _ _ _).1 hRun
  obtain ⟨rfl, -⟩ := (pure_ok_iff _ _ _ _).1 hRun
  intro d hd
  obtain ⟨ds, hds, hd⟩ := List.mem_flatten.1 hd
  obtain ⟨source, hSource, before, behind, hDirectives⟩ := Scan.mapM_directives_ok hFound ds hds
  exact ⟨source, hSource, ds, before, behind, hDirectives, hd⟩

end Metagen
