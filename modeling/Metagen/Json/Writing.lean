import Metagen.Text.Columns

/-! Writing JSON, every item and every field on a line of its own. -/

namespace Metagen.Json

def escapeChar (c : Char) : List Char :=
  if c == '"' then ['\\', '"']
  else if c == '\\' then ['\\', '\\']
  else if c == '\x08' then ['\\', 'b']
  else if c == '\x0c' then ['\\', 'f']
  else if c == '\n' then ['\\', 'n']
  else if c == '\r' then ['\\', 'r']
  else if c == '\t' then ['\\', 't']
  else if c.toNat < 0x20 then
    ['\\', 'u', '0', '0', Nat.digitChar (c.toNat / 16), Nat.digitChar (c.toNat % 16)]
  else [c]

def stringText (s : String) : String := .ofList (['"'] ++ s.toList.flatMap escapeChar ++ ['"'])

/-- Items between two brackets, each on a line of its own that starts after `indent + 2` spaces. -/
def lined (opening closing : String) (indent : Nat) (items : List String) : String :=
  if items.isEmpty then opening ++ closing
  else
    opening ++ "\n" ++ ",\n".intercalate (items.map fun item => Text.spaces (indent + 2) ++ item)
      ++ "\n" ++ Text.spaces indent ++ closing

def listText (indent : Nat) (items : List String) : String := lined "[" "]" indent items

def objectText (indent : Nat) (fields : List (String × String)) : String :=
  lined "\x7b" "\x7d" indent (fields.map fun (name, value) => stringText name ++ ": " ++ value)

end Metagen.Json
