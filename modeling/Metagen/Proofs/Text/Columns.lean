import Metagen.Text.Columns
import Mathlib.Data.List.DropRight

/-! Columns. A column is as wide as the widest of its cells that are aligned, so that each of these
fills it, and what is behind it starts in the same place in every row. Cells that are not aligned
have no part in this. -/

namespace Metagen.Text

theorem length_spaces (n : Nat) : (spaces n).length = n := by simp [spaces]

theorem foldl_max_le_iff {Item : Type} (size : Item → Nat) (items : List Item) (start n : Nat) :
    items.foldl (fun width item => max width (size item)) start ≤ n ↔
      start ≤ n ∧ ∀ item ∈ items, size item ≤ n := by
  induction items generalizing start with
  | nil => simp
  | cons item rest ih => rw [List.foldl_cons, ih, Nat.max_le, List.forall_mem_cons, and_assoc]

/-- The width of a column is the least one with room for each cell that is aligned in it. -/
theorem columnWidth_le_iff (rows : List (List Cell)) (i n : Nat) : columnWidth rows i ≤ n ↔
    ∀ row ∈ rows, ∀ cell ∈ row[i]?, cell.alignment ≠ .unaligned → cell.text.length ≤ n := by
  rw [columnWidth, foldl_max_le_iff]
  simp only [List.mem_filter, List.mem_filterMap, bne_iff_ne, Nat.zero_le, true_and]
  constructor
  · intro h row hRow cell hCell hAligned
    exact h cell ⟨⟨row, hRow, hCell⟩, hAligned⟩
  · rintro h cell ⟨⟨row, hRow, hCell⟩, hAligned⟩
    exact h row hRow cell hCell hAligned

/-- An aligned cell is no longer than its column is wide. -/
theorem length_le_columnWidth {rows : List (List Cell)} {row : List Cell} (hRow : row ∈ rows)
    {i : Nat} {cell : Cell} (hCell : row[i]? = some cell) (hAligned : cell.alignment ≠ .unaligned) :
    cell.text.length ≤ columnWidth rows i :=
  (columnWidth_le_iff rows i _).1 (Nat.le_refl _) row hRow cell hCell hAligned

/-- Cells from column `i` on one behind the other, in columns of these widths. -/
def paddedFrom (widths : Nat → Nat) : Nat → List Cell → String
  | _, [] => ""
  | i, cell :: rest => pad cell.alignment (widths i) cell.text ++ paddedFrom widths (i + 1) rest

/-- Padding goes cell by cell: cells behind others take the columns behind theirs. -/
theorem paddedFrom_append (widths : Nat → Nat) (i : Nat) (front behind : List Cell) :
    paddedFrom widths i (front ++ behind) =
      paddedFrom widths i front ++ paddedFrom widths (i + front.length) behind := by
  induction front generalizing i with
  | nil => simp [paddedFrom]
  | cons cell rest ih =>
      rw [List.cons_append, paddedFrom, ih, paddedFrom, String.append_assoc, List.length_cons]
      congr 3
      omega

/-- Padding a row together with the widths of all columns is padding its cells one by one, if no
cell stands beyond the last column. -/
theorem join_zipWith_pad (widths : Nat → Nat) (row : List Cell) {i columns : Nat}
    (h : row.length ≤ columns) :
    String.join (List.zipWith (fun cell width => pad cell.alignment width cell.text) row
      ((List.range' i columns).map widths)) = paddedFrom widths i row := by
  induction row generalizing i columns with
  | nil => simp [paddedFrom]
  | cons cell rest ih =>
      rw [List.length_cons] at h
      obtain ⟨more, rfl⟩ : ∃ more, columns = more + 1 := Nat.exists_eq_add_one.2 (by omega)
      rw [List.range'_succ, List.map_cons, List.zipWith_cons_cons, String.join_cons, paddedFrom,
        ih (Nat.le_of_succ_le_succ h)]

/-- There are as many columns as the longest row has cells. -/
theorem length_le_columns {rows : List (List Cell)} {row : List Cell} (hRow : row ∈ rows) :
    row.length ≤ rows.foldl (fun n row => max n row.length) 0 :=
  ((foldl_max_le_iff List.length rows 0 _).1 (Nat.le_refl _)).2 row hRow

/-- No cell is lost. -/
theorem justifiedLines_eq (rows : List (List Cell)) :
    justifiedLines rows = rows.map (paddedFrom (columnWidth rows) 0) := by
  rw [justifiedLines, justify, List.map_map]
  apply List.map_congr_left
  intro row hRow
  rw [Function.comp_apply, List.range_eq_range']
  exact join_zipWith_pad _ row (length_le_columns hRow)

/-- A cell at the left of its column ends, with the spaces behind it, where the column does. -/
theorem pad_left {rows : List (List Cell)} {row : List Cell} (hRow : row ∈ rows) {i : Nat}
    {text : String} (hCell : row[i]? = some ⟨.left, text⟩) :
    ∃ gap, pad .left (columnWidth rows i) text = text ++ spaces gap ∧
      (text ++ spaces gap).length = columnWidth rows i := by
  have hFits : text.length ≤ columnWidth rows i := length_le_columnWidth hRow hCell nofun
  refine ⟨columnWidth rows i - text.length, rfl, ?_⟩
  rw [String.length_append, length_spaces]
  omega

variable {Item : Type} {rows others : List (List Cell)} {cell : Cell}

/-- The cell of row `r` in column `i`. -/
def cellAt? (table : List (List Item)) (r i : Nat) : Option Item := table[r]?.bind (·[i]?)

theorem cellAt?_eq_some_iff {table : List (List Item)} {r i : Nat} {item : Item} :
    cellAt? table r i = some item ↔ ∃ row, table[r]? = some row ∧ row[i]? = some item := by
  rw [cellAt?, Option.bind_eq_some_iff]

/-- Every cell is padded to its column, and no other cell is added. -/
theorem cellAt?_justify (rows : List (List Cell)) (r i : Nat) : cellAt? (justify rows) r i =
    (cellAt? rows r i).map fun cell => pad cell.alignment (columnWidth rows i) cell.text := by
  unfold justify cellAt?
  rw [List.getElem?_map]
  cases hRow : rows[r]? with
  | none => rfl
  | some row =>
      rw [Option.map_some, Option.bind_some, Option.bind_some, List.getElem?_zipWith]
      cases hCell : row[i]? with
      | none => rfl
      | some cell =>
          have hInside : i < rows.foldl (fun n row => max n row.length) 0 :=
            (List.getElem?_eq_some_iff.1 hCell).1.trans_le
              (length_le_columns (List.mem_of_getElem? hRow))
          rw [List.getElem?_map, List.getElem?_range hInside]
          rfl

/-- Justifying keeps the shape of a table: each row has as many cells as before. -/
theorem map_length_justify (rows : List (List Cell)) :
    (justify rows).map List.length = rows.map List.length := by
  rw [justify, List.map_map]
  apply List.map_congr_left
  intro row hRow
  rw [Function.comp_apply, List.length_zipWith, List.length_map, List.length_range,
    Nat.min_eq_left (length_le_columns hRow)]

/-- The width of a column with an aligned cell in it: the length of the longest of these, so that
the width is within every limit that all of them are within. -/
structure IsWidth (rows : List (List Cell)) (i width : Nat) : Prop where
  longest : ∃ row ∈ rows, ∃ cell ∈ row[i]?, cell.alignment ≠ .unaligned ∧ cell.text.length = width
  le : ∀ row ∈ rows, ∀ cell ∈ row[i]?, cell.alignment ≠ .unaligned → cell.text.length ≤ width

/-- How many spaces are put before and behind a text. -/
inductive Alignment.Puts : Alignment → Nat → Nat → Prop where
  | left (gap : Nat) : Puts .left 0 gap
  | right (gap : Nat) : Puts .right gap 0
  | center {before behind : Nat} (hLe : before ≤ behind) (hNear : behind ≤ before + 1) :
      Puts .center before behind

/-- A cell fills its column, and is given back when the spaces are removed. -/
structure FillsColumn (width : Nat) (cell : Cell) (before behind : Nat) (shown : String) :
    Prop where
  puts : cell.alignment.Puts before behind
  shown_eq : shown = spaces before ++ cell.text ++ spaces behind
  length_eq : shown.length = width
  removed : (shown.toList.drop before).rdrop behind = cell.text.toList

/-- The width of a column is the greatest length of an aligned cell in it, and some cell reaches
it. -/
theorem isWidth_columnWidth {row : List Cell} (hRow : row ∈ rows) {i : Nat}
    (hCell : row[i]? = some cell) (hAligned : cell.alignment ≠ .unaligned) :
    IsWidth rows i (columnWidth rows i) where
  longest := by
    by_contra hNone
    push Not at hNone
    have hFits := length_le_columnWidth hRow hCell hAligned
    have hOwn := hNone row hRow cell hCell hAligned
    -- The width is the least one with room for all, so that there cannot be more room than needed.
    have hLess : columnWidth rows i ≤ columnWidth rows i - 1 := by
      rw [columnWidth_le_iff]
      intro other hOther cell' hCell' hAligned'
      have hLe := length_le_columnWidth hOther hCell' hAligned'
      have hNe := hNone other hOther cell' hCell' hAligned'
      omega
    omega
  le row' hRow' cell' hCell' hAligned' := length_le_columnWidth hRow' hCell' hAligned'

/-- Padding can be taken off again, so that no character of a cell is lost or changed. -/
theorem removed_spaces (before behind : Nat) (text : String) :
    ((spaces before ++ text ++ spaces behind).toList.drop before).rdrop behind = text.toList := by
  have hBefore : (spaces before).toList.length = before := by simp [spaces]
  have hBehind : (spaces behind).toList.length = behind := by simp [spaces]
  rw [String.toList_append, String.toList_append, List.append_assoc,
    List.drop_left' hBefore, List.rdrop, List.length_append, hBehind, Nat.add_sub_cancel,
    List.take_left]

theorem spaces_zero : spaces 0 = "" := rfl

/-- The spaces of an aligned cell share what its column has more than its text. -/
theorem exists_pad_eq {alignment : Alignment} {width : Nat} {text : String}
    (hAligned : alignment ≠ .unaligned) (hFits : text.length ≤ width) :
    ∃ before behind, alignment.Puts before behind ∧ before + text.length + behind = width ∧
      pad alignment width text = spaces before ++ text ++ spaces behind := by
  cases alignment with
  | unaligned => exact absurd rfl hAligned
  | left =>
      refine ⟨0, width - text.length, .left _, by omega, ?_⟩
      rw [pad, spaces_zero, String.empty_append]
  | right =>
      refine ⟨width - text.length, 0, .right _, by omega, ?_⟩
      rw [pad, spaces_zero, String.append_empty]
  | center =>
      refine ⟨(width - text.length) / 2, width - text.length - (width - text.length) / 2,
        .center (by omega) (by omega), by omega, ?_⟩
      rw [pad]

/-- An aligned cell with room in its column fills it. -/
theorem exists_fillsColumn {width : Nat} (hAligned : cell.alignment ≠ .unaligned)
    (hFits : cell.text.length ≤ width) :
    ∃ before behind, FillsColumn width cell before behind (pad cell.alignment width cell.text) := by
  obtain ⟨before, behind, hPuts, hLength, hPad⟩ := exists_pad_eq hAligned hFits
  refine ⟨before, behind, hPuts, hPad, ?_, ?_⟩
  · rw [hPad, String.length_append, String.length_append, length_spaces, length_spaces, hLength]
  · rw [hPad, removed_spaces]

/-- Two cells are alike but for the text of one that is not aligned. -/
def Cell.AlikeWhenAligned (a b : Cell) : Prop :=
  a.alignment = b.alignment ∧ (a.alignment ≠ .unaligned → a.text = b.text)

/-- Two tables have cells at the same places, and are alike but for the texts of cells that are not
aligned. -/
def TablesAlike (rows others : List (List Cell)) : Prop :=
  ∀ r i, Option.Rel Cell.AlikeWhenAligned (cellAt? rows r i) (cellAt? others r i)

theorem Cell.AlikeWhenAligned.symm {a b : Cell} (h : a.AlikeWhenAligned b) : b.AlikeWhenAligned a :=
  ⟨h.1.symm, fun hAligned => (h.2 (h.1 ▸ hAligned)).symm⟩

theorem TablesAlike.symm (h : TablesAlike rows others) : TablesAlike others rows := by
  intro r i
  have hAt := h r i
  generalize cellAt? rows r i = a, cellAt? others r i = b at hAt
  cases hAt with
  | none => exact .none
  | some hAlike => exact .some hAlike.symm

/-- A table whose aligned cells are the same has no wider columns, whatever its unaligned cells
are. -/
theorem TablesAlike.columnWidth_le (h : TablesAlike rows others) (i : Nat) :
    columnWidth others i ≤ columnWidth rows i := by
  rw [columnWidth_le_iff]
  intro other hOther cell' hCell' hAligned'
  obtain ⟨r, hr⟩ := List.getElem?_of_mem hOther
  have hAt := h r i
  rw [cellAt?_eq_some_iff.2 ⟨other, hr, hCell'⟩] at hAt
  cases hCell : cellAt? rows r i with
  | none =>
      rw [hCell] at hAt
      cases hAt
  | some cell =>
      rw [hCell] at hAt
      cases hAt with
      | some hAlike =>
          obtain ⟨row, hRow, hPlace⟩ := cellAt?_eq_some_iff.1 hCell
          have hAligned : cell.alignment ≠ .unaligned := hAlike.1 ▸ hAligned'
          rw [← hAlike.2 hAligned]
          exact length_le_columnWidth (List.mem_of_getElem? hRow) hPlace hAligned

theorem TablesAlike.columnWidth_eq (h : TablesAlike rows others) (i : Nat) :
    columnWidth rows i = columnWidth others i :=
  Nat.le_antisymm (h.symm.columnWidth_le i) (h.columnWidth_le i)

/-- The cells of a table fill their columns: its shape is kept, a cell that is not aligned stays as
it is, and any other is padded to the longest text among the aligned cells of its column. What is
written in cells that are not aligned matters to no other cell. -/
theorem justify_fills_columns (rows : List (List Cell)) :
    (justify rows).map List.length = rows.map List.length ∧
      (∀ r i cell, cellAt? rows r i = some cell → ∃ shown,
        cellAt? (justify rows) r i = some shown ∧
        (cell.alignment = .unaligned → shown = cell.text) ∧
        (cell.alignment ≠ .unaligned → ∃ width before behind,
          IsWidth rows i width ∧ FillsColumn width cell before behind shown)) ∧
      ∀ others, TablesAlike rows others → ∀ r i, cellAt? rows r i = cellAt? others r i →
        cellAt? (justify rows) r i = cellAt? (justify others) r i := by
  refine ⟨map_length_justify rows, fun r i cell hAt => ?_, fun others hAlike r i hSame => ?_⟩
  · have hShown := cellAt?_justify rows r i
    rw [hAt, Option.map_some] at hShown
    refine ⟨_, hShown, fun hUnaligned => by rw [hUnaligned, pad], fun hAligned => ?_⟩
    obtain ⟨row, hRow, hCell⟩ := cellAt?_eq_some_iff.1 hAt
    have hMem := List.mem_of_getElem? hRow
    obtain ⟨before, behind, hFills⟩ :=
      exists_fillsColumn hAligned (length_le_columnWidth hMem hCell hAligned)
    exact ⟨_, before, behind, isWidth_columnWidth hMem hCell hAligned, hFills⟩
  · rw [cellAt?_justify, cellAt?_justify, hSame, hAlike.columnWidth_eq]

/-- Rows of different lengths, with a cell that is not aligned among those of its column. -/
example : justify [[⟨.center, "a"⟩, ⟨.right, "1"⟩], [⟨.unaligned, "longer"⟩], [⟨.left, "abcd"⟩]] =
    [[" a  ", "1"], ["longer"], ["abcd"]] := by
  decide +kernel

end Metagen.Text
