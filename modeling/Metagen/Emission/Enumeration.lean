import Metagen.Emission.Action
import Metagen.Grouping

/-! Enumerations and the count of their members. -/

namespace Metagen.Emission

open Text

/-- How the number of members is published. -/
inductive CountStyle where
  | none
  | define
  | enum
  | constexpr
  deriving DecidableEq, Repr

namespace CountStyle

def word : CountStyle → String
  | none => "none"
  | define => "define"
  | enum => "enum"
  | constexpr => "constexpr"

def ofWord (s : String) : Except EmissionError CountStyle :=
  match [none, define, enum, constexpr].find? (·.word == s) with
  | some style => .ok style
  | Option.none => .error (.unknownCountStyle s)

end CountStyle

/-- A member, with its value if it has one of its own. -/
structure EnumMember where
  name : String
  value : Option String := none
  deriving DecidableEq, Repr

structure Enumeration where
  name : String
  underlying : Option String := none
  members : List EnumMember := []
  count : CountStyle := .constexpr
  deriving DecidableEq, Repr

namespace Enumeration

def countLine (d : Enumeration) : Option String :=
  let count := d.name ++ "_COUNT"
  let n := toString d.members.length
  match d.count with
  | .none => none
  | .define => some ("#define " ++ count ++ " " ++ n)
  | .enum =>
    let type := match d.underlying with
      | some t => " : " ++ t
      | none => ""
    some ("enum" ++ type ++ " \x7b " ++ count ++ " = " ++ n ++ " \x7d;")
  | .constexpr =>
    some ("static constexpr " ++ d.underlying.getD "int" ++ " " ++ count ++ " = " ++ n ++ ";")

def header (d : Enumeration) : String :=
  match d.underlying with
  | some t => "enum " ++ d.name ++ " : " ++ t
  | none => "enum " ++ d.name

/-- The cells of a member. Only members with a value are aligned. -/
def memberCells (d : Enumeration) (m : EnumMember) : List Cell :=
  let name := d.name ++ "_" ++ m.name
  match m.value with
  | some value => [⟨.left, name⟩, ⟨.unaligned, " = " ++ value ++ ","⟩]
  | none => [⟨.unaligned, name ++ ","⟩]

def fault? (d : Enumeration) : Option EmissionError :=
  if d.members.isEmpty then some (.emptyEnum d.name)
  else (firstRepeated (d.members.map (·.name))).map (.duplicateEnumMember d.name)

end Enumeration

def Emit.enumeration (d : Enumeration) : Emit Unit := do
  if let some fault := d.fault? then throw fault
  let members := justifiedLines (d.members.map d.memberCells)
  withScope (.headed d.header) (changeEmitter (·.lines members))
  changeEmitter (·.lineIfAny d.countLine)

end Metagen.Emission
