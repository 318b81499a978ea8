import Metagen.Emission.Action
import Metagen.Grouping

/-! Look-up tables: constant arrays of structs. A table without an element type gets a struct with
every field that one of its rows names, in order of first appearance. -/

namespace Metagen.Emission

open Text

/-- A member of a row; its value is C text. -/
structure TableMember where
  type : Option String := none
  name : String
  value : String
  deriving DecidableEq, Repr

/-- A row, with its index if it has one. -/
structure TableRow where
  index : Option String := none
  members : List TableMember := []
  deriving DecidableEq, Repr

structure Table where
  type : Option String := none
  name : String
  rows : List TableRow
  deriving DecidableEq, Repr

namespace Table

/-- What is wrong with one row. -/
def rowFault? (t : Table) (row : TableRow) : Option EmissionError :=
  if row.members.isEmpty then some (.malformedTable t.name "an entry has no members")
  else match firstRepeated (row.members.map (·.name)) with
    | some field => some (.duplicateTableField t.name field)
    | none =>
      if t.type.isSome then
        (row.members.find? (·.type.isSome)).map fun m => .typedTableMember t.name m.name
      else none

/-- What is wrong with a table: the first of its faults in a fixed order, row by row at last. -/
def fault? (t : Table) : Option EmissionError :=
  let indexed := t.rows.filterMap (·.index)
  if t.rows.isEmpty then some (.emptyTable t.name)
  else if !indexed.isEmpty && indexed.length != t.rows.length then
    some (.malformedTable t.name "either every entry has an index or none does")
  else match firstRepeated indexed with
    | some index => some (.duplicateTableIndex t.name index)
    | none => t.rows.findSome? t.rowFault?

/-- Members with distinct names: of members with one name the first. -/
def firstOfEachName (members : List TableMember) : List TableMember :=
  (members.foldl (fun kept m => if kept.any (·.name == m.name) then kept else m :: kept) []).reverse

def elementType (t : Table) : String :=
  match t.type with
  | some type => type
  | none =>
    let fields := (firstOfEachName (t.rows.flatMap (·.members))).map fun m =>
      m.type.getD ("typeof(" ++ m.value ++ ")") ++ " " ++ m.name ++ ";"
    "struct \x7b " ++ " ".intercalate fields ++ " \x7d"

/-- The cells of a row's members, with a comma after each but the last. -/
def memberCells : List TableMember → List Cell
  | [] => []
  | [m] => [⟨.left, "." ++ m.name ++ " = " ++ m.value⟩]
  | m :: rest => ⟨.left, "." ++ m.name ++ " = " ++ m.value ++ ", "⟩ :: memberCells rest

def rowCells (row : TableRow) : List Cell :=
  let start : List Cell := match row.index with
    | some index => [⟨.left, "[" ++ index ++ "]"⟩, ⟨.unaligned, " = \x7b "⟩]
    | none => [⟨.unaligned, "\x7b "⟩]
  start ++ memberCells row.members ++ [⟨.unaligned, " \x7d,"⟩]

def header (t : Table) : String := "static const " ++ t.elementType ++ " " ++ t.name ++ "[] ="

end Table

def Emit.table (t : Table) : Emit Unit := do
  if let some fault := t.fault? then throw fault
  let rows := justifiedLines (t.rows.map Table.rowCells)
  withScope (.headed t.header) (changeEmitter (·.lines rows))

end Metagen.Emission
