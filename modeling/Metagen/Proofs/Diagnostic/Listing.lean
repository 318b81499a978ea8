import Metagen.Diagnostic.Render
import Metagen.Proofs.Source.Lines
import Metagen.Proofs.Text.Columns

/-! How a diagnostic is shown without styles. Each of its sites is listed with the lines around it,
and the line of the site is the one that is marked. All numbers end in one column, which is as wide
as the longest of them, and what is wrong comes last. -/

namespace Metagen

open Text

/-- A place that a diagnostic is about: a line of a file, or something that is written in none. -/
inductive Site where
  | source (file : SourceFile) (line : Nat) (label : Option String)
  | native (label : String)

namespace Site

/-- The site as a diagnostic keeps it. -/
def place : Site → Place
  | source file line label => .ofFile file line label
  | native label => .native label

/-- The line of the site is one of its file. -/
def InFile : Site → Prop
  | source file line _ => 1 ≤ line ∧ line ≤ file.lineCount
  | native _ => True

/-- The lines of the file that are at most three away from the line of the site, by number. -/
def near : Site → List (Nat × String)
  | source file line _ =>
    file.numbered.filter fun entry => line ≤ entry.1 + 3 ∧ entry.1 ≤ line + 3
  | native _ => []

end Site

namespace Diagnostic

/-- A line of a file as it is shown: its number at the right end of the gutter, a bar, its text. -/
inductive ShowsLine (width : Nat) : Nat × String → String → Prop where
  | intro {gap k : Nat} {text : String} (h : gap + (toString k).length = width) :
      ShowsLine width (k, text) (spaces gap ++ toString k ++ " | " ++ text)

/-- A site as it is shown: the lines near by in ascending order, of which just its own is marked
with where it is, or a mark alone. -/
inductive ShowsSite (width : Nat) : Site → List String → Prop where
  | source {file : SourceFile} {line : Nat} {label : Option String} {text own : String}
      {before behind : List (Nat × String)} {above below : List String}
      (hNear : (Site.source file line label).near = before ++ (line, text) :: behind)
      (hAscending : ((before ++ (line, text) :: behind).map (·.1)).Pairwise (· < ·))
      (hAbove : List.Forall₂ (ShowsLine width) before above)
      (hOwn : ShowsLine width (line, text) own)
      (hBelow : List.Forall₂ (ShowsLine width) behind below) :
      ShowsSite width (.source file line label)
        (above ++ (own ++ " <- " ++ file.path ++ " : " ++ toString line ++
          label.elim "" (" : " ++ ·)) :: below)
  | native (label : String) :
      ShowsSite width (.native label) [spaces width ++ " | <- " ++ label]

def divider (width : Nat) : List String :=
  [spaces width ++ " :", spaces width ++ " : " ++ .ofList (List.replicate 80 '.'),
    spaces width ++ " :"]

/-- The lines of all sites, with those between them and around them. -/
def listing (width : Nat) : List (List String) → List String
  | [] => []
  | first :: rest =>
    (spaces width ++ " |") :: first ++ rest.flatMap (divider width ++ ·) ++
      [spaces width ++ " |", ""]

/-- A line has a bar, or a colon between two sites, behind a gutter of this width. -/
def HasBar (width : Nat) (line : String) : Prop := ∃ gutter bar rest : String,
  gutter.length = width ∧ (bar = " |" ∨ bar = " :") ∧ line = gutter ++ bar ++ rest

/-- The width of the gutter: it has room for the numbers that are listed, and is not wider than they
need, nor empty. -/
structure IsGutter (sites : List Site) (width : Nat) : Prop where
  room : ∀ site ∈ sites, ∀ entry ∈ site.near, (toString entry.1).length ≤ width
  pos : 0 < width
  least (other : Nat) (hPos : 0 < other)
    (hRoom : ∀ site ∈ sites, ∀ entry ∈ site.near, (toString entry.1).length ≤ other) :
    width ≤ other

variable {d : Diagnostic} {sites : List Site} {width : Nat}

/-- The line numbers that a place of a diagnostic needs are those of the lines shown near the
site. -/
theorem lineNumbers_place (site : Site) : site.place.lineNumbers = site.near.map (·.1) := by
  cases site with
  | source file line label =>
      change (file.window line windowMargin).map (·.1) = _
      rw [SourceFile.window_eq]
      rfl
  | native label => rfl

/-- The largest line number of a diagnostic is bounded exactly if the numbers of all lines near its
sites are, so that its digits decide the gutter's width. -/
theorem largest_le_iff (h : d.places = sites.map Site.place) (n : Nat) :
    (d.places.flatMap Place.lineNumbers).foldl max 0 ≤ n ↔
      ∀ site ∈ sites, ∀ entry ∈ site.near, entry.1 ≤ n := by
  have hFold := foldl_max_le_iff id (d.places.flatMap Place.lineNumbers) 0 n
  simp only [id, Nat.zero_le, true_and] at hFold
  rw [hFold, h]
  simp only [List.forall_mem_flatMap, List.forall_mem_map, lineNumbers_place]

theorem length_toString_le_iff {n : Nat} (h : 0 < width) :
    (toString n).length ≤ width ↔ n < 10 ^ width := Nat.length_repr_le_iff h

/-- The gutter of a diagnostic with these sites has room for all line numbers that are shown near
them, and is as wide as the widest of these needs. -/
theorem isGutter_numberWidth (h : d.places = sites.map Site.place) :
    IsGutter sites d.numberWidth where
  pos := Nat.length_repr_pos
  room site hSite entry hEntry := by
    have hLe := (largest_le_iff h _).1 (Nat.le_refl _) site hSite entry hEntry
    have hLargest : (d.places.flatMap Place.lineNumbers).foldl max 0 < 10 ^ d.numberWidth :=
      (length_toString_le_iff Nat.length_repr_pos).1 (Nat.le_refl _)
    exact (length_toString_le_iff Nat.length_repr_pos).2 (hLe.trans_lt hLargest)
  least other hPos hRoom := by
    have hPower : 0 < 10 ^ other := Nat.pow_pos (by decide)
    have hLargest : (d.places.flatMap Place.lineNumbers).foldl max 0 ≤ 10 ^ other - 1 := by
      rw [largest_le_iff h]
      intro site hSite entry hEntry
      have hLess := (length_toString_le_iff hPos).1 (hRoom site hSite entry hEntry)
      omega
    exact (length_toString_le_iff hPos).2 (by omega)

theorem paint_plain (style : Style) (text : String) : paint false style text = text := rfl

theorem placeLines_source (color : Bool) (path : String) (line : Nat) (label : Option String)
    {window : List (Nat × String)} (h : window ≠ []) :
    placeLines color width (.source path line label window) =
      window.map fun (number, text) => windowLine color width path line label number text := by
  cases window with
  | nil => exact absurd rfl h
  | cons entry rest => rfl

def plainLine (width : Nat) (entry : Nat × String) : String :=
  pad .right width (toString entry.1) ++ " " ++ "|" ++ " " ++ entry.2

theorem showsLine_plainLine {entry : Nat × String} (h : (toString entry.1).length ≤ width) :
    ShowsLine width entry (plainLine width entry) := by
  have hLine : ShowsLine width (entry.1, entry.2)
      (spaces (width - (toString entry.1).length) ++ toString entry.1 ++ " | " ++ entry.2) :=
    .intro (Nat.sub_add_cancel h)
  have hText : plainLine width entry =
      spaces (width - (toString entry.1).length) ++ toString entry.1 ++ " | " ++ entry.2 := by
    apply String.toList_inj.1
    simp [plainLine, pad]
  rwa [hText]

/-- Only the line of the place is marked. -/
theorem windowLine_other {path text : String} {line k : Nat} {label : Option String}
    (h : k ≠ line) : windowLine false width path line label k text = plainLine width (k, text) := by
  rw [windowLine, if_neg (by simpa using h)]
  rfl

/-- The site's own line is a numbered line like its neighbours, with the mark and the label behind
it. -/
theorem windowLine_own {path text : String} {line : Nat} {label : Option String} :
    windowLine false width path line label line text =
      plainLine width (line, text) ++ " <- " ++ path ++ " : " ++ toString line ++
        label.elim "" (" : " ++ ·) := by
  apply String.toList_inj.1
  cases label with
  | none => simp [windowLine, plainLine, mark, Place.markerText, paint_plain]
  | some label => simp [windowLine, plainLine, mark, Place.markerText, paint_plain]

theorem forall₂_showsLine {entries : List (Nat × String)}
    (h : ∀ entry ∈ entries, (toString entry.1).length ≤ width) :
    List.Forall₂ (ShowsLine width) entries (entries.map (plainLine width)) :=
  List.forall₂_map_right_iff.2
    (List.forall₂_same.2 fun entry hEntry => showsLine_plainLine (h entry hEntry))

/-- Lines near a site are shown in ascending order, each once. -/
theorem ascending_near (site : Site) : (site.near.map (·.1)).Pairwise (· < ·) := by
  cases site with
  | source file line label =>
      exact file.ascending_numbered.sublist (List.filter_sublist.map _)
  | native label => exact .nil

/-- The line of a site is among those near by. -/
theorem exists_near_split {file : SourceFile} {line : Nat} {label : Option String}
    (h : (Site.source file line label).InFile) : ∃ before behind,
      (Site.source file line label).near = before ++ (line, file.lineAt line) :: behind := by
  apply List.append_of_mem
  rw [Site.near, List.mem_filter]
  exact ⟨SourceFile.mem_numbered h.1 h.2, by simp⟩

/-- Numbers that ascend are those of no other line. -/
theorem map_windowLine {path : String} {line : Nat} {label : Option String}
    {entries : List (Nat × String)} (h : ∀ entry ∈ entries, entry.1 ≠ line) :
    entries.map (fun (number, text) => windowLine false width path line label number text) =
      entries.map (plainLine width) :=
  List.map_congr_left fun entry hEntry => windowLine_other (h entry hEntry)

/-- A site is shown with its own line marked, if there is room for all numbers. -/
theorem showsSite_placeLines {site : Site} (hInFile : site.InFile)
    (hRoom : ∀ entry ∈ site.near, (toString entry.1).length ≤ width) :
    ShowsSite width site (placeLines false width site.place) := by
  cases site with
  | native label =>
      have hLine : placeLines false width (Site.native label).place =
          [spaces width ++ " | <- " ++ label] := by
        simp [Site.place, placeLines, gutterLine, mark, paint_plain, ← String.toList_inj]
      rw [hLine]
      exact .native label
  | source file line label =>
      obtain ⟨before, behind, hNear⟩ := exists_near_split hInFile
      have hAscending := ascending_near (.source file line label)
      have hPlace : (Site.source file line label).place =
          .source file.path line label (before ++ (line, file.lineAt line) :: behind) := by
        rw [← hNear, Site.place, Place.ofFile, SourceFile.window_eq]
        rfl
      rw [hNear] at hAscending hRoom
      rw [List.forall_mem_append, List.forall_mem_cons] at hRoom
      obtain ⟨hRoomBefore, hRoomOwn, hRoomBehind⟩ := hRoom
      have hOrder := hAscending
      rw [List.map_append, List.map_cons, List.pairwise_append, List.pairwise_cons] at hOrder
      obtain ⟨-, ⟨hLater, -⟩, hEarlier⟩ := hOrder
      have hBefore : ∀ entry ∈ before, entry.1 ≠ line := fun entry hEntry =>
        (hEarlier _ (List.mem_map_of_mem hEntry) _ List.mem_cons_self).ne
      have hBehind : ∀ entry ∈ behind, entry.1 ≠ line := fun entry hEntry =>
        (hLater _ (List.mem_map_of_mem hEntry)).ne'
      rw [hPlace, placeLines_source _ _ _ _ (by simp), List.map_append, List.map_cons,
        map_windowLine hBefore, map_windowLine hBehind]
      dsimp only
      rw [windowLine_own]
      exact .source hNear hAscending (forall₂_showsLine hRoomBefore)
        (showsLine_plainLine hRoomOwn) (forall₂_showsLine hRoomBehind)

/-- Dividers stand between the lines of two places and nowhere else, so that the shown lines are
those of a listing. -/
theorem contextLines_eq (places : List Place) : contextLines false width places =
    listing width (places.map (placeLines false width)) := by
  have hBar (bar : String) : gutterLine false width bar = spaces width ++ " " ++ bar := rfl
  have hDivider : dividerLines false width = divider width := by
    simp [dividerLines, divider, hBar, dividerWidth, ← String.toList_inj]
  cases places with
  | nil => rfl
  | cons first rest =>
      have hEdge : gutterLine false width "|" = spaces width ++ " |" := by
        simp [hBar, ← String.toList_inj]
      rw [contextLines, List.map_cons, listing, hEdge, laterLines, hDivider, List.flatMap_map]

/-- Without styles a diagnostic closes with its heading, and with its detail on a line below if it
has one. -/
theorem closingLines_eq (d : Diagnostic) : closingLines false d =
    ("[ERROR] " ++ d.heading) :: d.detail?.elim [] (fun detail => ["        > " ++ detail]) := by
  have hError : paint false .alarm "[ERROR]" ++ " " ++ d.heading = "[ERROR] " ++ d.heading := by
    simp [paint_plain]
  rw [closingLines, hError]
  cases d.detail? <;> rfl

theorem HasBar.append {line : String} (h : HasBar width line) (more : String) :
    HasBar width (line ++ more) := by
  obtain ⟨gutter, bar, rest, hGutter, hBar, rfl⟩ := h
  exact ⟨gutter, bar, rest ++ more, hGutter, hBar, by rw [String.append_assoc]⟩

/-- A line with nothing in its gutter. -/
theorem hasBar_spaces {bar line : String} (hBar : bar = " |" ∨ bar = " :") (rest : String)
    (hLine : line = spaces width ++ bar ++ rest) : HasBar width line :=
  ⟨_, bar, rest, length_spaces width, hBar, hLine⟩

theorem ShowsLine.hasBar {entry : Nat × String} {line : String} (h : ShowsLine width entry line) :
    HasBar width line := by
  cases h with
  | @intro gap k text hWidth =>
      refine ⟨spaces gap ++ toString k, " |", " " ++ text, ?_, .inl rfl, ?_⟩
      · rw [String.length_append, length_spaces, hWidth]
      · simp [← String.toList_inj]

/-- If each entry of a site is shown by its line then every one of the lines has the bar, whatever
mark stands behind it. -/
theorem hasBar_of_forall₂ {entries : List (Nat × String)} {lines : List String}
    (h : List.Forall₂ (ShowsLine width) entries lines) : ∀ line ∈ lines, HasBar width line := by
  induction h with
  | nil => nofun
  | cons hLine _ ih => exact List.forall_mem_cons.2 ⟨hLine.hasBar, ih⟩

/-- Every line that is shown for a site has the bar of the gutter in the same column. -/
theorem ShowsSite.hasBar {site : Site} {block : List String} (h : ShowsSite width site block) :
    ∀ line ∈ block, HasBar width line := by
  cases h with
  | source hNear hAscending hAbove hOwn hBelow =>
      rw [List.forall_mem_append, List.forall_mem_cons]
      refine ⟨hasBar_of_forall₂ hAbove, ?_, hasBar_of_forall₂ hBelow⟩
      exact ((((hOwn.hasBar.append _).append _).append _).append _).append _
  | native label =>
      rw [List.forall_mem_singleton]
      exact hasBar_spaces (.inl rfl) (" <- " ++ label) (by simp [← String.toList_inj])

theorem hasBar_divider : ∀ line ∈ divider width, HasBar width line := by
  have hColon : HasBar width (spaces width ++ " :") :=
    hasBar_spaces (.inr rfl) "" (by rw [String.append_empty])
  have hDots : HasBar width (spaces width ++ " : " ++ .ofList (List.replicate 80 '.')) :=
    hasBar_spaces (.inr rfl) (" " ++ .ofList (List.replicate 80 '.'))
      (by simp [← String.toList_inj])
  simp only [divider, List.forall_mem_cons]
  exact ⟨hColon, hDots, hColon, nofun⟩

/-- All bars are in one column. -/
theorem hasBar_listing {blocks : List (List String)}
    (h : ∀ block ∈ blocks, ∀ line ∈ block, HasBar width line) :
    ∀ line ∈ listing width blocks, line = "" ∨ HasBar width line := by
  have hEdge : HasBar width (spaces width ++ " |") :=
    hasBar_spaces (.inl rfl) "" (by rw [String.append_empty])
  cases blocks with
  | nil => nofun
  | cons first rest =>
      rw [List.forall_mem_cons] at h
      intro line hLine
      simp only [listing, List.mem_append, List.mem_cons, List.mem_flatMap, List.not_mem_nil,
        or_false] at hLine
      rcases hLine with ((rfl | hFirst) | ⟨block, hBlock, hDivider | hRest⟩) | (rfl | rfl)
      · exact .inr hEdge
      · exact .inr (h.1 line hFirst)
      · exact .inr (hasBar_divider line hDivider)
      · exact .inr (h.2 block hBlock line hRest)
      · exact .inr hEdge
      · exact .inl rfl

/-- A diagnostic shows all of its sites in order: of each, the lines near by with their numbers at
the right end of one gutter, and its own line marked, or a mark alone. All bars are in one column,
and what is wrong comes last. -/
theorem render_shows_sites (hPlaces : d.places = sites.map Site.place)
    (hInFile : ∀ site ∈ sites, site.InFile) : ∃ width blocks, IsGutter sites width ∧
      List.Forall₂ (ShowsSite width) sites blocks ∧
      (∀ line ∈ listing width blocks, line = "" ∨ HasBar width line) ∧
      d.render false = String.join ((listing width blocks ++ ("[ERROR] " ++ d.heading) ::
        d.detail?.elim [] (fun detail => ["        > " ++ detail])).map (· ++ "\n")) := by
  have hGutter := isGutter_numberWidth hPlaces
  have hShown (site : Site) (hSite : site ∈ sites) :
      ShowsSite d.numberWidth site (placeLines false d.numberWidth site.place) :=
    showsSite_placeLines (hInFile site hSite) (hGutter.room site hSite)
  refine ⟨d.numberWidth, sites.map fun site => placeLines false d.numberWidth site.place, hGutter,
    ?_, hasBar_listing ?_, ?_⟩
  · exact List.forall₂_map_right_iff.2 (List.forall₂_same.2 hShown)
  · intro block hBlock
    obtain ⟨site, hSite, rfl⟩ := List.mem_map.1 hBlock
    exact (hShown site hSite).hasBar
  · rw [render, contextLines_eq, closingLines_eq, hPlaces, List.map_map]
    rfl

/-- A call of something native in a line of a file whose numbers are not all equally long. -/
def callSites : List Site :=
  [.native "Meta.enums",
    .source (.ofText "a.c" "a\nb\nc\nd\ne\nf\ng\nh\ni\nj\nk\n") 8 (some "outer")]

/-- What stopped a run at these sites. -/
def stoppedCall : Diagnostic where
  code := .runtimeFailure
  kind := .runtime .value
  message := "bad"
  places := callSites.map Site.place

/-- A call of something native: the line of the call is shown among lines whose numbers differ in
length, and the native site is a mark alone. -/
theorem render_shows_callSites : stoppedCall.places = callSites.map Site.place ∧
    (∀ site ∈ callSites, site.InFile) ∧
    (∃ width blocks, IsGutter callSites width ∧
      List.Forall₂ (ShowsSite width) callSites blocks ∧
      stoppedCall.render false = String.join ((listing width blocks ++
        ["[ERROR] Value exception.", "        > bad."]).map (· ++ "\n"))) := by
  have hInFile : ∀ site ∈ callSites, site.InFile := by
    have hCount : (SourceFile.ofText "a.c" "a\nb\nc\nd\ne\nf\ng\nh\ni\nj\nk\n").lineCount = 11 := by
      decide +kernel
    simp only [callSites, List.forall_mem_cons, Site.InFile, hCount]
    exact ⟨trivial, by decide, nofun⟩
  have hDetail : stoppedCall.detail? = some "bad." := by decide +kernel
  obtain ⟨width, blocks, hGutter, hShown, -, hRender⟩ :=
    render_shows_sites (d := stoppedCall) rfl hInFile
  rw [hDetail] at hRender
  exact ⟨rfl, hInFile, width, blocks, hGutter, hShown, hRender⟩

end Diagnostic

end Metagen
