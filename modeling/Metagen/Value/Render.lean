import Metagen.Numeral.Shortest
import Metagen.Text.Quoted
import Metagen.Value.Store

/-! The text of a value: as scripts see it when they turn a value into text, and as C source. Both
follow the nesting of containers; a container that contains itself has no text, and is cut off at a
depth that no other container reaches. -/

namespace Metagen

open Numeral Text

namespace Value

/-- False are nil, false, zero and whatever is empty. -/
def truthy (s : Store) : Value → Bool
  | nil => false
  | bool b => b
  | int n => n != 0
  | float x => x != 0.0
  | text t => !t.isEmpty
  | list cell => !(s.listAt cell).isEmpty
  | record cell => !(s.recordAt cell).isEmpty
  | function _ | builtin _ | generator => true

/-- The text of a value in braces or brackets: texts are quoted there. -/
def nested (render : Value → String) : Value → String
  | text t => quoted t
  | v => render v

/-- The text of a value whose containers nest less deep than `depth`. -/
def renderTo (s : Store) : Nat → Value → String
  | 0, _ => ""
  | depth + 1, v =>
    match v with
    | nil => "nil"
    | bool b => toString b
    | int n => toString n.toInt
    | float x => floatTextWithPoint x
    | text t => t
    | list cell =>
      "[" ++ ", ".intercalate ((s.listAt cell).toList.map (nested (renderTo s depth))) ++ "]"
    | record cell =>
      "\x7b" ++ ", ".intercalate ((s.recordAt cell).entries.map fun (k, v) =>
        k ++ ": " ++ nested (renderTo s depth) v) ++ "\x7d"
    | function cell => "<fn " ++ s.functionLabel cell ++ ">"
    | builtin b => "<builtin " ++ b.name ++ ">"
    | generator => "<Meta>"

def render (s : Store) (v : Value) : String := renderTo s maxNesting v

/-- The text of a value as it is shown inside containers and in messages. -/
def renderNested (s : Store) (v : Value) : String := nested (render s) v

/-- The C text of a number: an integer below 10 ^ 15 has no point. -/
def floatCText (x : Float) : String :=
  match classify x with
  | .finite d =>
    if d.isIntegral && d.truncAbs < Nat.pow 10 15 then toString d.trunc else floatText x
  | _ => floatText x

/-- C text between braces, with what stands in them. -/
def initializer (parts : List String) : String :=
  if parts.isEmpty then "\x7b\x7d" else "\x7b " ++ ", ".intercalate parts ++ " \x7d"

/-- The C text of a value whose containers nest less deep than `depth`; the error is the type of a
value inside that has none. -/
def cTextTo (s : Store) : Nat → Value → Except String String
  | 0, _ => .ok ""
  | depth + 1, v =>
    match v with
    | nil => .ok "none"
    | bool b => .ok (toString b)
    | int n => .ok (toString n.toInt)
    | float x => .ok (floatCText x)
    | text t => .ok t
    | list cell => return initializer (← (s.listAt cell).toList.mapM (cTextTo s depth))
    | record cell =>
      return initializer (← (s.recordAt cell).entries.mapM fun (k, v) =>
        return "." ++ k ++ " = " ++ (← cTextTo s depth v))
    | function _ | builtin _ | generator => .error v.typeName

/-- The C text of a value, or the type of the first value inside that has none. -/
def cText (s : Store) (v : Value) : Except String String := cTextTo s maxNesting v

end Value

/-- The escaped form of one character of a C string. -/
def cEscape (c : Char) : List Char :=
  if c == '"' then ['\\', '"']
  else if c == '\\' then ['\\', '\\']
  else if c == '\n' then ['\\', 'n']
  else if c == '\t' then ['\\', 't']
  else if c == '\r' then ['\\', 'r']
  else if c.toNat < 0x20 || c.toNat == 0x7F then
    '\\' :: [c.toNat / 64, c.toNat / 8 % 8, c.toNat % 8].map Nat.digitChar
  else [c]

/-- A text as a C string. Control characters are written with three octal digits, so that a digit
after them is not taken into the escape. -/
def cString (t : String) : String := .ofList (['"'] ++ t.toList.flatMap cEscape ++ ['"'])

end Metagen
