import Metagen.Proofs.Emission.Blocks
import Metagen.Proofs.Emission.Continuation
import Metagen.Proofs.Emission.Refusals
import Metagen.Proofs.Text.Columns

/-! Enumerations. An enumeration with which nothing is wrong is written completely: its header, a
line for each of its members in their order, and the number of its members. -/

namespace Metagen.Emission

open Text Emitter

namespace Enumeration

/-- The texts of the enumeration are single lines, and its name does not start with a blank. -/
structure FitsLines (d : Enumeration) : Prop where
  start : ∀ c ∈ d.name.toList.head?, isBlank c = false
  name : '\n' ∉ d.name.toList
  underlying : ∀ type ∈ d.underlying, '\n' ∉ type.toList
  members : ∀ m ∈ d.members, '\n' ∉ m.name.toList
  values : ∀ m ∈ d.members, ∀ value ∈ m.value, '\n' ∉ value.toList

/-- The text of a member, with an equals sign behind a column if it has a value. -/
inductive MemberLine (d : Enumeration) (column : Nat) (m : EnumMember) : String → Prop where
  | bare (h : m.value = none) : MemberLine d column m (d.name ++ "_" ++ m.name ++ ",")
  | valued {value : String} {gap : Nat} (h : m.value = some value)
      (hColumn : (d.name ++ "_" ++ m.name ++ spaces gap).length = column) :
      MemberLine d column m (d.name ++ "_" ++ m.name ++ spaces gap ++ " = " ++ value ++ ",")

/-- The text with the number of members, in the style of the enumeration. -/
inductive CountLine (d : Enumeration) : Option String → Prop where
  | none (h : d.count = .none) : CountLine d none
  | define (h : d.count = .define) : CountLine d
      (some ("#define " ++ (d.name ++ "_COUNT") ++ " " ++ toString d.members.length))
  | enum (h : d.count = .enum) : CountLine d
      (some ("enum" ++ d.underlying.elim "" (" : " ++ ·) ++ " \x7b " ++ (d.name ++ "_COUNT") ++
        " = " ++ toString d.members.length ++ " \x7d;"))
  | constexpr (h : d.count = .constexpr) : CountLine d
      (some ("static constexpr " ++ d.underlying.getD "int" ++ " " ++ (d.name ++ "_COUNT") ++
        " = " ++ toString d.members.length ++ ";"))

variable {d : Enumeration}

/-- The cells of a member are its text, with padding in front of the equals sign. -/
theorem memberLine_paddedFrom {rows : List (List Cell)} {m : EnumMember}
    (hRow : d.memberCells m ∈ rows) : d.MemberLine (columnWidth rows 0) m
      (paddedFrom (columnWidth rows) 0 (d.memberCells m)) := by
  cases hValue : m.value with
  | none => simpa [memberCells, hValue, paddedFrom, pad] using MemberLine.bare hValue
  | some value =>
      have hCells : d.memberCells m =
          [⟨.left, d.name ++ "_" ++ m.name⟩, ⟨.unaligned, " = " ++ value ++ ","⟩] := by
        simp [memberCells, hValue]
      obtain ⟨gap, hPad, hColumn⟩ := pad_left (i := 0) hRow (by rw [hCells]; rfl)
      have hLine := MemberLine.valued hValue hColumn
      rw [hCells, paddedFrom, hPad]
      simpa [paddedFrom, pad, String.append_assoc] using hLine

/-- Members are written one per line with the equals signs of all values in a common column. -/
theorem exists_memberLine (d : Enumeration) : ∃ (column : Nat) (line : EnumMember → String),
    justifiedLines (d.members.map d.memberCells) = d.members.map line ∧
      ∀ m ∈ d.members, d.MemberLine column m (line m) := by
  refine ⟨_, _, ?_, fun m hMember => memberLine_paddedFrom (List.mem_map_of_mem hMember)⟩
  rw [justifiedLines_eq, List.map_map]
  rfl

/-- The text of a member starts with the name of its enumeration. -/
theorem FitsLines.opensLine (h : d.FitsLines) : OpensLine (d.name ++ "_") where
  first := by
    cases hName : d.name.toList with
    | nil => exact ⟨'_', by simp [hName], by decide⟩
    | cons c cs => exact ⟨c, by simp [hName], h.start c (by simp [hName])⟩
  single := by simp [h.name]

/-- The line of a member is neither blank nor broken, if the texts of the enumeration fit into
lines. -/
theorem MemberLine.solid {column : Nat} {m : EnumMember} {line : String}
    (h : d.MemberLine column m line) (hTexts : d.FitsLines) (hMember : m ∈ d.members) :
    Solid line := by
  have hName := hTexts.opensLine.append m.name (hTexts.members m hMember)
  cases h with
  | bare => exact hName.closed (c := ',') (by decide) rfl (by decide)
  | @valued value gap hValue =>
      have hSingle := hTexts.values m hMember value hValue
      have hEquals := (hName.append _ (notMem_spaces gap)).append " = " (by decide)
      exact (hEquals.append value hSingle).closed (c := ',') (by decide) rfl (by decide)

/-- The text that the enumeration starts with. -/
theorem header_eq (d : Enumeration) :
    d.header = "enum " ++ d.name ++ d.underlying.elim "" (" : " ++ ·) := by
  unfold header
  cases d.underlying with
  | none => simp
  | some type => simp [String.append_assoc]

/-- The header of an enumeration is one line that starts with its word, if the texts of the
enumeration are single lines. -/
theorem FitsLines.opensLine_header (h : d.FitsLines) : OpensLine d.header where
  first := ⟨'e', by simp [header_eq], by decide⟩
  single := by
    rw [header_eq]
    cases hType : d.underlying with
    | none => simp [h.name]
    | some type => simp [h.name, h.underlying type hType]

/-- The block behind the header of an enumeration is that of a declaration. -/
theorem inferFrom_header (d : Enumeration) : inferFrom d.header = declarationBraces false := by
  have hKeyword : leadingKeyword d.header = "enum" :=
    leadingKeyword_of_word 'e' ['n', 'u', 'm']
      (' ' :: (d.name ++ d.underlying.elim "" (" : " ++ ·)).toList) (by simp [header_eq])
      (by decide) (by rintro _ ⟨⟩; decide)
  unfold inferFrom
  rw [hKeyword]
  rfl

/-- The line with the number of members is the one that the style of the enumeration asks for, and
there is none if it asks for none. -/
theorem countLine_countLine (d : Enumeration) : d.CountLine d.countLine := by
  unfold countLine
  cases hCount : d.count with
  | none => exact .none hCount
  | define => exact .define hCount
  | enum =>
      have hLine := CountLine.enum hCount
      cases hType : d.underlying <;> simpa [hType] using hLine
  | constexpr => exact .constexpr hCount

/-- The line that counts the members is neither blank nor broken, if there is one. -/
theorem CountLine.solid {count : Option String} (h : d.CountLine count) (hTexts : d.FitsLines) :
    ∀ line ∈ count, Solid line := by
  have hNumber := notMem_digits d.members.length
  have hCount : '\n' ∉ (d.name ++ "_COUNT").toList := by simp [hTexts.name]
  rintro line hLine
  cases h with
  | none => cases hLine
  | define =>
      cases hLine
      have hDefine : OpensLine "#define " := ⟨⟨'#', rfl, by decide⟩, by decide⟩
      obtain ⟨c, hc⟩ : ∃ c, (toString d.members.length).toList.getLast? = some c :=
        Option.ne_none_iff_exists'.1 (by simp)
      apply ((hDefine.append _ hCount).append " " (by decide)).closed hNumber hc
      exact isBlank_of_mem_digits (List.mem_of_getLast? hc)
  | enum =>
      cases hLine
      have hEnum : OpensLine "enum" := ⟨⟨'e', rfl, by decide⟩, by decide⟩
      have hType : '\n' ∉ (d.underlying.elim "" (" : " ++ ·)).toList := by
        cases hType : d.underlying with
        | none => decide
        | some type => simp [hTexts.underlying type hType]
      have hOpening := ((hEnum.append _ hType).append " \x7b " (by decide)).append _ hCount
      exact ((hOpening.append " = " (by decide)).append _ hNumber).closed (c := ';') (by decide) rfl
        (by decide)
  | constexpr =>
      cases hLine
      have hConst : OpensLine "static constexpr " := ⟨⟨'s', rfl, by decide⟩, by decide⟩
      have hType : '\n' ∉ (d.underlying.getD "int").toList := by
        cases hType : d.underlying with
        | none => decide
        | some type => exact hTexts.underlying type hType
      have hOpening := ((hConst.append _ hType).append " " (by decide)).append _ hCount
      exact ((hOpening.append " = " (by decide)).append _ hNumber).closed (c := ';') (by decide) rfl
        (by decide)

/-- An enumeration with which nothing is wrong is written as its header, a line for each member with
the equals signs in one column, and the number of its members. -/
theorem enumeration_complete {e : Emitter} (hTexts : d.FitsLines) (hSound : ¬ d.Faulty)
    (hCalm : e.Calm) :
    ∃ (e' : Emitter) (column : Nat) (line : EnumMember → String) (count : Option String),
      Emit.enumeration d e = .ok () e' ∧
      (∀ m ∈ d.members, d.MemberLine column m (line m)) ∧ d.CountLine count ∧
      e.Appended e'
        (textLine e.indent (trimEnd ("enum " ++ d.name ++ d.underlying.elim "" (" : " ++ ·))) ++
          (textLine e.indent "\x7b" ++
            (String.join (d.members.map fun m => textLine (e.indent + 1) (line m)) ++
              textLine e.indent "\x7d;")) ++ count.elim "" (textLine e.indent)) := by
  obtain ⟨column, line, hLines, hMembers⟩ := d.exists_memberLine
  have hSolid : ∀ text ∈ d.members.map line, Solid text := by
    intro text hText
    obtain ⟨m, hMember, rfl⟩ := List.mem_map.1 hText
    exact (hMembers m hMember).solid hTexts hMember
  have hShown : Showing.enumeration d e.ledger = ⟨.both (.scope (.headed d.header)
      (.plain ((d.members.map line).flatMap fragmentLines))) (.optional d.countLine), .ok (),
        e.ledger⟩ := by
    unfold Showing.enumeration
    rw [d.fault?_eq_none_iff.2 hSound, ← hLines]
    rfl
  obtain ⟨e', hResult, hAppended⟩ := (ShowsEverywhere.enumeration d).appended hCalm hShown
  refine ⟨e', column, line, d.countLine, hResult, hMembers, d.countLine_countLine, ?_⟩
  have hBlock := render_declaration (inferFrom_header d) hTexts.opensLine_header hSolid
    e.indent e.indent rfl
  have hCount := Solid.render_optional (d.countLine_countLine.solid hTexts) e.indent
  rw [Layout.lines, render_append, hBlock, Layout.ends_of_not_continued, hCount, header_eq,
    List.map_map] at hAppended
  exact hAppended

/-- Members with a value and without one. -/
def mixed : Enumeration where
  name := "E"
  members := [⟨"A", none⟩, ⟨"LONG", some "5"⟩, ⟨"B", some "A"⟩]
  count := .define

/-- An enumeration whose members have values or not, with names of different lengths: its text, line
by line. -/
theorem enumeration_complete_mixed :
    mixed.FitsLines ∧ ¬ mixed.Faulty ∧ ({} : Emitter).Calm ∧
      ∃ e', Emit.enumeration mixed {} = .ok () e' ∧ e'.output =
        "enum E\n\x7b\n    E_A,\n    E_LONG = 5,\n    E_B    = A,\n\x7d;\n#define E_COUNT 3\n" := by
  have hTexts : mixed.FitsLines :=
    ⟨by simp [mixed]; decide, by simp [mixed], by simp [mixed], by simp [mixed], by simp [mixed]⟩
  have hSound : ¬ mixed.Faulty := mixed.fault?_eq_none_iff.1 (by decide)
  have hCalm : ({} : Emitter).Calm := ⟨rfl, nofun⟩
  obtain ⟨e', -, -, -, hRun, -⟩ := enumeration_complete hTexts hSound hCalm
  refine ⟨hTexts, hSound, hCalm, e', hRun, ?_⟩
  have hOutput : (endState (Emit.enumeration mixed {})).output =
      "enum E\n\x7b\n    E_A,\n    E_LONG = 5,\n    E_B    = A,\n\x7d;\n#define E_COUNT 3\n" := by
    decide +kernel
  rwa [hRun] at hOutput

end Enumeration

end Metagen.Emission
