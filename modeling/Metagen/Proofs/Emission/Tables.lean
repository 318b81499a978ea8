import Metagen.Proofs.Emission.Blocks
import Metagen.Proofs.Emission.Continuation
import Metagen.Proofs.Emission.Refusals
import Metagen.Proofs.Text.Columns
import Mathlib.Data.List.Induction

/-! Look-up tables. The struct of a table without a type has a field for each name in its rows, and
its rows are written in their order, so that the designators that come at the same place in their
rows stand one below the other. -/

namespace Metagen.Emission

open Text Emitter

namespace Table

/-- The fields are the first members of their names, one for each name, in their order. -/
structure FirstAppearances (all fields : List TableMember) : Prop where
  names : ∀ m ∈ all, ∃ field ∈ fields, field.name = m.name
  nodup : (fields.map (·.name)).Nodup
  first : ∀ field ∈ fields, all.find? (·.name == field.name) = some field
  order : fields.Pairwise fun a b =>
    all.findIdx (·.name == a.name) < all.findIdx (·.name == b.name)

namespace FirstAppearances

variable {all fields : List TableMember} {m : TableMember}

theorem find?_concat (h : FirstAppearances all fields) (m : TableMember) :
    ∀ field ∈ fields, (all ++ [m]).find? (·.name == field.name) = some field := by
  intro field hField
  rw [List.find?_append, h.first field hField, Option.some_or]

/-- Where a field is found does not change when a member is added at the end. -/
theorem findIdx_concat (h : FirstAppearances all fields) {field : TableMember}
    (hField : field ∈ fields) (m : TableMember) :
    (all ++ [m]).findIdx (·.name == field.name) = all.findIdx (·.name == field.name) ∧
      all.findIdx (·.name == field.name) < all.length := by
  have hFound := List.find?_some (h.first field hField)
  have hMem := List.mem_of_find?_eq_some (h.first field hField)
  have hLt : all.findIdx (·.name == field.name) < all.length :=
    List.findIdx_lt_length_of_exists ⟨field, hMem, hFound⟩
  exact ⟨by rw [List.findIdx_append, if_pos hLt], hLt⟩

theorem order_concat (h : FirstAppearances all fields) (m : TableMember) :
    fields.Pairwise fun a b =>
      (all ++ [m]).findIdx (·.name == a.name) < (all ++ [m]).findIdx (·.name == b.name) := by
  apply h.order.imp_of_mem
  intro a b ha hb hLt
  rwa [(h.findIdx_concat ha m).1, (h.findIdx_concat hb m).1]

/-- A member whose name is there already adds no field: the first one of the name counts. -/
theorem concat_old (h : FirstAppearances all fields)
    (hOld : ∃ field ∈ fields, field.name = m.name) : FirstAppearances (all ++ [m]) fields where
  names := by simpa [or_imp, forall_and, hOld] using h.names
  nodup := h.nodup
  first := h.find?_concat m
  order := h.order_concat m

/-- A field that was not there yet comes behind the others. -/
theorem concat_new (h : FirstAppearances all fields)
    (hNew : ¬ ∃ field ∈ fields, field.name = m.name) :
    FirstAppearances (all ++ [m]) (fields ++ [m]) := by
  have hNone : ∀ m' ∈ all, m'.name ≠ m.name := by
    intro m' hMember hName
    obtain ⟨field, hField, hSame⟩ := h.names m' hMember
    exact hNew ⟨field, hField, hSame.trans hName⟩
  refine ⟨fun m' hMember => ?_, ?_, ?_, ?_⟩
  · rcases List.mem_append.1 hMember with hBefore | hHere
    · obtain ⟨field, hField, hSame⟩ := h.names m' hBefore
      exact ⟨field, List.mem_append_left _ hField, hSame⟩
    · exact ⟨m', List.mem_append_right _ hHere, rfl⟩
  · rw [List.map_append, List.map_singleton, List.nodup_append]
    refine ⟨h.nodup, by simp, ?_⟩
    rintro name hName _ hLast rfl
    obtain ⟨field, hField, hSame⟩ := List.mem_map.1 hName
    exact hNew ⟨field, hField, hSame.trans (List.mem_singleton.1 hLast)⟩
  · have hFirst : all.find? (·.name == m.name) = none := by simpa using hNone
    rw [List.forall_mem_append]
    refine ⟨h.find?_concat m, fun field hField => ?_⟩
    rw [List.mem_singleton.1 hField, List.find?_append, hFirst]
    simp
  · have hLast : (all ++ [m]).findIdx (·.name == m.name) = all.length := by
      rw [List.findIdx_append, List.findIdx_eq_length.2 (by simpa using hNone)]
      simp
    rw [List.pairwise_append]
    refine ⟨h.order_concat m, List.pairwise_singleton _ _, fun a ha b hb => ?_⟩
    obtain ⟨hSame, hLt⟩ := h.findIdx_concat ha m
    rwa [List.mem_singleton.1 hb, hLast, hSame]

end FirstAppearances

theorem firstOfEachName_concat (all : List TableMember) (m : TableMember) :
    firstOfEachName (all ++ [m]) = if (firstOfEachName all).any (·.name == m.name)
      then firstOfEachName all else firstOfEachName all ++ [m] := by
  unfold firstOfEachName
  rw [List.foldl_append, List.foldl_cons, List.foldl_nil, List.any_reverse]
  split <;> simp

/-- Of all members the first one of each name makes a field, in the order in which they come. -/
theorem firstAppearances (all : List TableMember) :
    FirstAppearances all (firstOfEachName all) := by
  induction all using List.reverseRecOn with
  | nil => exact ⟨nofun, .nil, nofun, .nil⟩
  | append_singleton all m ih =>
      rw [firstOfEachName_concat]
      by_cases hOld : ∃ field ∈ firstOfEachName all, field.name = m.name
      · rw [if_pos (by simpa using hOld)]
        exact ih.concat_old hOld
      · rw [if_neg (by simpa using hOld)]
        exact ih.concat_new hOld

def designator (m : TableMember) : String := "." ++ m.name ++ " = " ++ m.value

/-- The members of a row from number `k` on, which stand at this place in their line: their text,
and the same without padding. Each of them starts in the column of its number. -/
inductive Designators (columns : Nat → Nat) :
    Nat → Nat → List TableMember → String → String → Prop where
  | last (k : Nat) (m : TableMember) (gap : Nat) :
      Designators columns k (columns k) [m] (designator m ++ spaces gap) (designator m)
  | more (k : Nat) (m : TableMember) (gap : Nat) {rest : List TableMember} {text bare : String}
      (h : Designators columns (k + 1)
        (columns k + (designator m ++ ", " ++ spaces gap).length) rest text bare) :
      Designators columns k (columns k) (m :: rest) (designator m ++ ", " ++ spaces gap ++ text)
        (designator m ++ ", " ++ bare)

/-- A row as it is written, and the same without padding. -/
inductive RowLine (columns : Nat → Nat) (row : TableRow) : String → String → Prop where
  | indexed {index : String} {gap : Nat} {text bare : String} (hIndex : row.index = some index)
      (h : Designators columns 0 ("[" ++ index ++ "]" ++ spaces gap ++ " = \x7b ").length
        row.members text bare) :
      RowLine columns row ("[" ++ index ++ "]" ++ spaces gap ++ " = \x7b " ++ text ++ " \x7d,")
        ("[" ++ index ++ "] = \x7b " ++ bare ++ " \x7d,")
  | plain {text bare : String} (hIndex : row.index = none)
      (h : Designators columns 0 "\x7b ".length row.members text bare) :
      RowLine columns row ("\x7b " ++ text ++ " \x7d,") ("\x7b " ++ bare ++ " \x7d,")

/-- The text of a row without padding. -/
def bareText (row : TableRow) : String :=
  row.index.elim "\x7b " (fun index => "[" ++ index ++ "] = \x7b ") ++
    ", ".intercalate (row.members.map designator) ++ " \x7d,"

/-- Where columns start that are behind a front, and number `offset` is the first of them. -/
def columnStart (widths : Nat → Nat) (offset front : Nat) : Nat → Nat
  | 0 => front
  | k + 1 => columnStart widths offset front k + widths (offset + k)

variable {rows : List (List Cell)}

theorem memberCells_singleton (m : TableMember) :
    memberCells [m] = [⟨.left, designator m⟩] := rfl

theorem memberCells_cons_cons (m next : TableMember) (rest : List TableMember) :
    memberCells (m :: next :: rest) =
      ⟨.left, designator m ++ ", "⟩ :: memberCells (next :: rest) := rfl

/-- The induction is on the members; each of them ends where its column does, so that the next one
starts where the next column does. -/
theorem designators_paddedFrom (offset front : Nat) {row : List Cell} (hRow : row ∈ rows)
    {members : List TableMember} {k : Nat} (hNe : members ≠ [])
    (hCells : ∀ i cell, (memberCells members)[i]? = some cell →
      row[offset + k + i]? = some cell) :
    Designators (columnStart (columnWidth rows) offset front) k
      (columnStart (columnWidth rows) offset front k) members
      (paddedFrom (columnWidth rows) (offset + k) (memberCells members))
      (", ".intercalate (members.map designator)) := by
  induction members generalizing k with
  | nil => exact absurd rfl hNe
  | cons m rest ih =>
      obtain _ | ⟨next, rest⟩ := rest
      · obtain ⟨gap, hPad, -⟩ := pad_left hRow (hCells 0 ⟨.left, designator m⟩ rfl)
        rw [Nat.add_zero] at hPad
        rw [memberCells_singleton, paddedFrom, hPad, paddedFrom, String.append_empty,
          List.map_singleton, String.intercalate_singleton]
        exact .last k m gap
      · obtain ⟨gap, hPad, hLength⟩ :=
          pad_left hRow (hCells 0 ⟨.left, designator m ++ ", "⟩ rfl)
        rw [Nat.add_zero] at hPad hLength
        have hRest := ih (k := k + 1) (by simp) fun i cell hCell => by
          have hNext := hCells (i + 1) cell hCell
          rwa [show offset + (k + 1) + i = offset + k + (i + 1) by omega]
        -- The next column starts where this cell ends.
        rw [columnStart, ← hLength] at hRest
        rw [memberCells_cons_cons, paddedFrom, hPad, List.map_cons, List.map_cons,
          String.intercalate_cons_cons]
        exact .more k m gap hRest

/-- The cells of a row with an index. -/
theorem rowLine_indexed {row : TableRow} (hRow : rowCells row ∈ rows) {index : String}
    (hIndex : row.index = some index) (hNe : row.members ≠ []) :
    RowLine (columnStart (columnWidth rows) 2 (columnWidth rows 0 + " = \x7b ".length)) row
      (paddedFrom (columnWidth rows) 0 (rowCells row)) (bareText row) := by
  have hCells : rowCells row = ⟨.left, "[" ++ index ++ "]"⟩ :: ⟨.unaligned, " = \x7b "⟩ ::
      (memberCells row.members ++ [⟨.unaligned, " \x7d,"⟩]) := by
    simp [rowCells, hIndex]
  obtain ⟨gap, hPad, hLength⟩ := pad_left (i := 0) hRow (by rw [hCells]; rfl)
  have hMembers := designators_paddedFrom 2 (columnWidth rows 0 + " = \x7b ".length) (k := 0) hRow
    hNe fun i cell hCell => by
      rw [hCells, show 2 + 0 + i = i + 2 by omega, List.getElem?_cons_succ,
        List.getElem?_cons_succ, List.getElem?_append_left (List.getElem?_eq_some_iff.1 hCell).1]
      exact hCell
  have hFront : ("[" ++ index ++ "]" ++ spaces gap ++ " = \x7b ").length =
      columnWidth rows 0 + " = \x7b ".length := by rw [String.length_append, hLength]
  have hText : paddedFrom (columnWidth rows) 0 (rowCells row) =
      "[" ++ index ++ "]" ++ spaces gap ++ " = \x7b " ++
        paddedFrom (columnWidth rows) (2 + 0) (memberCells row.members) ++ " \x7d," := by
    rw [hCells, paddedFrom, hPad, paddedFrom, paddedFrom_append]
    simp [paddedFrom, pad, String.append_assoc]
  have hBare : bareText row = "[" ++ index ++ "] = \x7b " ++
      ", ".intercalate (row.members.map designator) ++ " \x7d," := by
    simp [bareText, hIndex]
  rw [hText, hBare]
  exact .indexed hIndex (by rw [hFront]; exact hMembers)

/-- The cells of a row without an index. -/
theorem rowLine_plain {row : TableRow} (hRow : rowCells row ∈ rows) (hIndex : row.index = none)
    (hNe : row.members ≠ []) :
    RowLine (columnStart (columnWidth rows) 1 "\x7b ".length) row
      (paddedFrom (columnWidth rows) 0 (rowCells row)) (bareText row) := by
  have hCells : rowCells row = ⟨.unaligned, "\x7b "⟩ ::
      (memberCells row.members ++ [⟨.unaligned, " \x7d,"⟩]) := by
    simp [rowCells, hIndex]
  have hMembers := designators_paddedFrom 1 "\x7b ".length (k := 0) hRow hNe
    fun i cell hCell => by
      rw [hCells, show 1 + 0 + i = i + 1 by omega, List.getElem?_cons_succ,
        List.getElem?_append_left (List.getElem?_eq_some_iff.1 hCell).1]
      exact hCell
  have hText : paddedFrom (columnWidth rows) 0 (rowCells row) = "\x7b " ++
      paddedFrom (columnWidth rows) (1 + 0) (memberCells row.members) ++ " \x7d," := by
    rw [hCells, paddedFrom, paddedFrom_append]
    simp [paddedFrom, pad, String.append_assoc]
  have hBare : bareText row = "\x7b " ++ ", ".intercalate (row.members.map designator) ++
      " \x7d," := by
    simp [bareText, hIndex]
  rw [hText, hBare]
  exact .plain hIndex hMembers

/-- Either all rows have an index or none, so that all members start behind the same front. -/
theorem exists_columns {t : Table} (hSound : ¬ t.Faulty) (hRows : rows = t.rows.map rowCells) :
    ∃ columns, ∀ row ∈ t.rows, RowLine columns row
      (paddedFrom (columnWidth rows) 0 (rowCells row)) (bareText row) := by
  have hCells : ∀ row ∈ t.rows, rowCells row ∈ rows := fun row hRow =>
    hRows ▸ List.mem_map_of_mem hRow
  have hMembers : ∀ row ∈ t.rows, row.members ≠ [] := fun row hRow hEmpty =>
    hSound (.row ⟨row, hRow, .empty hEmpty⟩)
  by_cases hIndexed : ∃ row ∈ t.rows, row.index.isSome = true
  · have hAll : ∀ row ∈ t.rows, ∃ index, row.index = some index := fun row hRow =>
      Option.ne_none_iff_exists'.1 fun hNone => hSound (.mixed hIndexed ⟨row, hRow, hNone⟩)
    refine ⟨columnStart (columnWidth rows) 2 (columnWidth rows 0 + " = \x7b ".length),
      fun row hRow => ?_⟩
    obtain ⟨index, hIndex⟩ := hAll row hRow
    exact rowLine_indexed (hCells row hRow) hIndex (hMembers row hRow)
  · have hNone : ∀ row ∈ t.rows, row.index = none := by simpa using hIndexed
    exact ⟨_, fun row hRow => rowLine_plain (hCells row hRow) (hNone row hRow) (hMembers row hRow)⟩

/-- The texts of the table are single lines. -/
structure SingleLines (t : Table) : Prop where
  name : '\n' ∉ t.name.toList
  indices : ∀ row ∈ t.rows, ∀ index ∈ row.index, '\n' ∉ index.toList
  names : ∀ row ∈ t.rows, ∀ m ∈ row.members, '\n' ∉ m.name.toList
  types : ∀ row ∈ t.rows, ∀ m ∈ row.members, ∀ type ∈ m.type, '\n' ∉ type.toList
  values : ∀ row ∈ t.rows, ∀ m ∈ row.members, '\n' ∉ m.value.toList

/-- The designators of a row stay on one line if the names and values of its members do. -/
theorem Designators.notMem {columns : Nat → Nat} {k place : Nat} {members : List TableMember}
    {text bare : String} (h : Designators columns k place members text bare)
    (hNames : ∀ m ∈ members, '\n' ∉ m.name.toList)
    (hValues : ∀ m ∈ members, '\n' ∉ m.value.toList) : '\n' ∉ text.toList := by
  induction h with
  | last k m gap =>
      simp [designator, hNames m (.head _), hValues m (.head _), notMem_spaces]
  | more k m gap h ih =>
      have hRest := ih (fun m' hm' => hNames m' (.tail m hm'))
        fun m' hm' => hValues m' (.tail m hm')
      simp [designator, hNames m (.head _), hValues m (.head _), notMem_spaces, hRest]

/-- The line of a row is neither blank nor broken, if the texts of the table stay on single
lines. -/
theorem RowLine.solid {t : Table} (hTexts : t.SingleLines) {columns : Nat → Nat} {row : TableRow}
    {line bare : String} (h : RowLine columns row line bare) (hRow : row ∈ t.rows) :
    Solid line := by
  have hNames := hTexts.names row hRow
  have hValues := hTexts.values row hRow
  cases h with
  | @indexed index gap text bare hIndex h =>
      have hBracket : OpensLine "[" := ⟨⟨'[', rfl, by decide⟩, by decide⟩
      have hFront := (hBracket.append index (hTexts.indices row hRow index hIndex)).append "]"
        (by decide)
      have hOpening := (hFront.append _ (notMem_spaces gap)).append " = \x7b " (by decide)
      exact (hOpening.append text (h.notMem hNames hValues)).closed (c := ',') (by decide) rfl
        (by decide)
  | plain hIndex h =>
      have hBrace : OpensLine "\x7b " := ⟨⟨'\x7b', rfl, by decide⟩, by decide⟩
      exact (hBrace.append _ (h.notMem hNames hValues)).closed (c := ',') (by decide) rfl
        (by decide)

def declaration (m : TableMember) : String :=
  m.type.getD ("typeof(" ++ m.value ++ ")") ++ " " ++ m.name ++ ";"

/-- The text that a table with these fields starts with. -/
def structHeader (name : String) (fields : List TableMember) : String :=
  "static const " ++ ("struct \x7b " ++ " ".intercalate (fields.map declaration) ++ " \x7d") ++
    " " ++ name ++ "[] ="

/-- Without a type the header declares a struct, with a field for each name that some row has. -/
theorem header_eq {t : Table} (h : t.type = none) :
    t.header = structHeader t.name (firstOfEachName (t.rows.flatMap (·.members))) := by
  have hElements : t.elementType = "struct \x7b " ++ " ".intercalate
      ((firstOfEachName (t.rows.flatMap (·.members))).map declaration) ++ " \x7d" := by
    unfold elementType
    rw [h]
    rfl
  -- Equations of these definitions would compare the bytes of their texts.
  delta header structHeader
  rw [hElements]

/-- The header that declares a struct is neither blank nor broken. -/
theorem solid_structHeader {t : Table} (hTexts : t.SingleLines) {fields : List TableMember}
    (hFields : FirstAppearances (t.rows.flatMap (·.members)) fields) :
    Solid (structHeader t.name fields) := by
  have hDeclarations : ∀ text ∈ fields.map declaration, '\n' ∉ text.toList := by
    intro text hText
    obtain ⟨m, hField, rfl⟩ := List.mem_map.1 hText
    obtain ⟨row, hRow, hMember⟩ :=
      List.mem_flatMap.1 (List.mem_of_find?_eq_some (hFields.first m hField))
    have hName := hTexts.names row hRow m hMember
    unfold declaration
    cases hType : m.type with
    | none => simp [hName, hTexts.values row hRow m hMember]
    | some type => simp [hName, hTexts.types row hRow m hMember type hType]
  have hStruct : '\n' ∉ ("struct \x7b " ++ " ".intercalate (fields.map declaration) ++
      " \x7d").toList := by
    simp only [String.toList_append, List.mem_append, not_or]
    exact ⟨⟨by decide, Preprocessing.notMem_intercalate (by decide) hDeclarations⟩, by decide⟩
  have hStatic : OpensLine "static const " := ⟨⟨'s', rfl, by decide⟩, by decide⟩
  have hOpening := ((hStatic.append _ hStruct).append " " (by decide)).append _ hTexts.name
  exact hOpening.closed (c := '=') (by decide) rfl (by decide)

/-- Behind the equals sign that the header ends in, the rows are in braces one level deeper. -/
theorem inferFrom_structHeader {name : String} {fields : List TableMember}
    (h : Solid (structHeader name fields)) :
    inferFrom (structHeader name fields) = declarationBraces true := by
  have hStart : (structHeader name fields).toList = 's' :: ['t', 'a', 't', 'i', 'c'] ++
      (" const ".toList ++ ("struct \x7b " ++ " ".intercalate (fields.map declaration) ++
        " \x7d" ++ " " ++ name ++ "[] =").toList) := by
    delta structHeader
    simp
  have hKeyword : leadingKeyword (structHeader name fields) = "static" :=
    leadingKeyword_of_word 's' ['t', 'a', 't', 'i', 'c'] _ hStart (by decide) (by simp; decide)
  obtain ⟨front, hEnd⟩ : ∃ front, structHeader name fields = front ++ "[] =" := ⟨_, rfl⟩
  have hAssign : (trimEnd (structHeader name fields)).toList.getLast? = some '=' := by
    rw [h.trimEnd, hEnd]
    simp
  unfold inferFrom
  rw [hAssign, hKeyword]
  rfl

/-- A table without a type with which nothing is wrong is written as its struct, and a line for each
row with the designators in columns. -/
theorem table_well_formed {t : Table} {e : Emitter} (hTexts : t.SingleLines) (hType : t.type = none)
    (hSound : ¬ t.Faulty) (hCalm : e.Calm) :
    ∃ (e' : Emitter) (fields : List TableMember) (columns : Nat → Nat) (line : TableRow → String),
      Emit.table t e = .ok () e' ∧
      FirstAppearances (t.rows.flatMap (·.members)) fields ∧
      (∀ row ∈ t.rows, RowLine columns row (line row) (bareText row)) ∧
      e.Appended e' (textLine e.indent (structHeader t.name fields) ++
        (textLine (e.indent + 1) "\x7b" ++
          (String.join (t.rows.map fun row => textLine (e.indent + 2) (line row)) ++
            textLine (e.indent + 1) "\x7d;"))) := by
  let fields := firstOfEachName (t.rows.flatMap (·.members))
  let line (row : TableRow) := paddedFrom (columnWidth (t.rows.map rowCells)) 0 (rowCells row)
  have hFields : FirstAppearances (t.rows.flatMap (·.members)) fields := firstAppearances _
  have hHeader : Solid (structHeader t.name fields) := solid_structHeader hTexts hFields
  obtain ⟨columns, hRows⟩ := exists_columns hSound rfl
  have hSolid : ∀ text ∈ t.rows.map line, Solid text := by
    intro text hText
    obtain ⟨row, hRow, rfl⟩ := List.mem_map.1 hText
    exact (hRows row hRow).solid hTexts hRow
  have hLines : justifiedLines (t.rows.map rowCells) = t.rows.map line := by
    rw [justifiedLines_eq, List.map_map]
    rfl
  have hShown : Showing.table t e.ledger = ⟨.scope (.headed (structHeader t.name fields))
      (.plain ((t.rows.map line).flatMap fragmentLines)), .ok (), e.ledger⟩ := by
    unfold Showing.table
    rw [t.fault?_eq_none_iff.2 hSound, header_eq hType, hLines]
    rfl
  obtain ⟨e', hResult, hAppended⟩ := (ShowsEverywhere.table t).appended hCalm hShown
  refine ⟨e', fields, columns, line, hResult, hFields, hRows, ?_⟩
  rw [render_declaration (inferFrom_structHeader hHeader) hHeader.toOpensLine hSolid e.indent
    (e.indent + 1) rfl, hHeader.trimEnd, List.map_map] at hAppended
  exact hAppended

/-- Rows with different fields. -/
def uneven : Table where
  name := "T"
  rows := [⟨some "0", [⟨some "int", "a", "1"⟩, ⟨some "int", "b", "2"⟩]⟩,
    ⟨some "10", [⟨none, "b", "20"⟩]⟩]

/-- A table whose rows have different fields: the struct has all of them, and equal fields stand in
one column. -/
theorem table_well_formed_uneven :
    uneven.SingleLines ∧ uneven.type = none ∧ ¬ uneven.Faulty ∧ ({} : Emitter).Calm ∧
      ∃ e', Emit.table uneven {} = .ok () e' ∧ e'.output =
        "static const struct \x7b int a; int b; \x7d T[] =\n    \x7b\n" ++
          "        [0]  = \x7b .a = 1, .b = 2 \x7d,\n" ++
          "        [10] = \x7b .b = 20  \x7d,\n    \x7d;\n" := by
  have hTexts : uneven.SingleLines :=
    ⟨by simp [uneven], by simp [uneven], by simp [uneven], by simp [uneven], by simp [uneven]⟩
  have hSound : ¬ uneven.Faulty := uneven.fault?_eq_none_iff.1 (by decide)
  have hCalm : ({} : Emitter).Calm := ⟨rfl, nofun⟩
  have hOutput : (endState (Emit.table uneven {})).output =
      "static const struct \x7b int a; int b; \x7d T[] =\n    \x7b\n" ++
        "        [0]  = \x7b .a = 1, .b = 2 \x7d,\n" ++
        "        [10] = \x7b .b = 20  \x7d,\n    \x7d;\n" := by
    decide +kernel
  obtain ⟨e', -, -, -, hRun, -⟩ := table_well_formed hTexts rfl hSound hCalm
  rw [hRun] at hOutput
  exact ⟨hTexts, rfl, hSound, hCalm, e', hRun, hOutput⟩

end Table

end Metagen.Emission
