/-! Reading JSON. A reader takes what it reads off the front of a text, and fails where the text is
not what it reads. Strings hold no raw control characters, and their escapes stand for characters,
those outside the basic plane being written as a pair. -/

namespace Metagen.Json

/-- Takes something off the front of a text. -/
abbrev Reader := StateT (List Char) Option

def isSpace (c : Char) : Bool := c == ' ' || c == '\n' || c == '\t' || c == '\r'

def hexDigit? (c : Char) : Option Nat :=
  if '0' ≤ c ∧ c ≤ '9' then some (c.toNat - '0'.toNat)
  else if 'a' ≤ c ∧ c ≤ 'f' then some (c.toNat - 'a'.toNat + 10)
  else if 'A' ≤ c ∧ c ≤ 'F' then some (c.toNat - 'A'.toNat + 10)
  else none

/-- The number of four hexadecimal digits. -/
def hexUnit? (a b c d : Char) : Option Nat := do
  return Nat.pow 16 3 * (← hexDigit? a) + Nat.pow 16 2 * (← hexDigit? b) + 16 * (← hexDigit? c)
    + (← hexDigit? d)

/-- The character of a pair of units, of which only the first is the first half of a pair. -/
def pairChar? (high low : Nat) : Option Char :=
  if 0xDC00 ≤ low ∧ low < 0xE000 then
    some (.ofNat (0x10000 + (high - 0xD800) * 0x400 + (low - 0xDC00)))
  else none

/-- The character that an escape of one letter stands for. -/
def shortEscape? : Char → Option Char
  | '"' => some '"'
  | '\\' => some '\\'
  | '/' => some '/'
  | 'b' => some '\x08'
  | 'f' => some '\x0c'
  | 'n' => some '\n'
  | 'r' => some '\r'
  | 't' => some '\t'
  | _ => none

/-- The rest of a string, after the characters read so far, which are in reverse order. -/
def stringFrom (read : List Char) : List Char → Option (String × List Char)
  | [] => none
  | '"' :: rest => some (.ofList read.reverse, rest)
  | '\\' :: 'u' :: a :: b :: c :: d :: rest => do
    let unit ← hexUnit? a b c d
    if unit < 0xD800 || 0xE000 ≤ unit then stringFrom (.ofNat unit :: read) rest
    else if 0xDC00 ≤ unit then none
    else
      match rest with
      | '\\' :: 'u' :: e :: f :: g :: h :: rest =>
        stringFrom ((← pairChar? unit (← hexUnit? e f g h)) :: read) rest
      | _ => none
  | '\\' :: c :: rest => do stringFrom ((← shortEscape? c) :: read) rest
  | c :: rest => if c.toNat < 0x20 then none else stringFrom (c :: read) rest

namespace Reader

def space : Reader Unit := modify (·.dropWhile isSpace)

def exactly (text : String) : Reader Unit := fun cs =>
  if text.toList.isPrefixOf cs then some ((), cs.drop text.length) else none

def token (text : String) : Reader Unit := do
  space
  exactly text

def string : Reader String := do
  token "\""
  fun cs => stringFrom [] cs

def bool : Reader Bool := (token "true" *> pure true) <|> (token "false" *> pure false)

def nullable {α : Type} (value : Reader α) : Reader (Option α) :=
  (token "null" *> pure none) <|> (some <$> value)

/-- Read the end of a sequence, or what follows a comma; `fuel` bounds their number. -/
def more {α : Type} (item : Reader α) (close : String) : Nat → Reader (List α)
  | 0 => token close *> pure []
  | fuel + 1 =>
    (token close *> pure []) <|> (do
      token ","
      let first ← item
      return first :: (← more item close fuel))

/-- Read items between commas up to a closing text. -/
def sequence {α : Type} (item : Reader α) (close : String) : Reader (List α) := fun cs =>
  ((token close *> pure []) <|> (do
    let first ← item
    return first :: (← more item close cs.length))) cs

def list {α : Type} (item : Reader α) : Reader (List α) := do
  token "["
  sequence item "]"

def finish : Reader Unit := do
  space
  if (← get).isEmpty then return else failure

end Reader

end Metagen.Json
