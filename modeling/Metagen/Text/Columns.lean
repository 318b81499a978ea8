/-! Columns. The cells of a table are padded with spaces so that each column lines up; cells that
are left alone neither move nor widen their column. -/

namespace Metagen.Text

/-- Where a cell stands within its column. -/
inductive Alignment where
  /-- The cell is left as it is and does not widen its column. -/
  | unaligned
  | left
  | right
  | center
  deriving DecidableEq, Repr

/-- A cell and its place within its column. -/
structure Cell where
  alignment : Alignment
  text : String
  deriving DecidableEq, Repr

def spaces (n : Nat) : String := .ofList (List.replicate n ' ')

/-- Pad a text to `width` characters. An odd space of a centered text goes to its right. -/
def pad (alignment : Alignment) (width : Nat) (text : String) : String :=
  let gap := width - text.length
  match alignment with
  | .unaligned => text
  | .left => text ++ spaces gap
  | .right => spaces gap ++ text
  | .center => spaces (gap / 2) ++ text ++ spaces (gap - gap / 2)

/-- The width of column `i`: the longest text among its aligned cells. -/
def columnWidth (rows : List (List Cell)) (i : Nat) : Nat :=
  ((rows.filterMap (·[i]?)).filter (·.alignment != .unaligned)).foldl
    (fun width cell => max width cell.text.length) 0

/-- Pad every cell to the width of its column; rows may have different lengths. -/
def justify (rows : List (List Cell)) : List (List String) :=
  let columns := rows.foldl (fun n row => max n row.length) 0
  let widths := (List.range columns).map (columnWidth rows)
  rows.map fun row => List.zipWith (fun cell width => pad cell.alignment width cell.text) row widths

/-- Rows whose cells are justified and then written without a gap between them. -/
def justifiedLines (rows : List (List Cell)) : List String := (justify rows).map String.join

end Metagen.Text
