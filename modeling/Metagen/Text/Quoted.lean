import Metagen.Text.GlyphTable
import Metagen.Text.Ranges

/-! Quoted texts, as they are shown inside lists and records: between double quotes, with escapes
for the quote, the backslash and every character without a glyph of its own. -/

namespace Metagen.Text

def hexDigits (n : Nat) : List Char := Nat.toDigits 16 n

/-- A character that is shown by its code point. -/
def lacksGlyph (c : Char) : Bool :=
  let n := c.toNat
  if 0x20 ≤ n && n < 0x7F then false else inRanges glyphlessRanges n

def quoteChar (c : Char) : List Char :=
  if c == '\x00' then ['\\', '0']
  else if c == '\t' then ['\\', 't']
  else if c == '\r' then ['\\', 'r']
  else if c == '\n' then ['\\', 'n']
  else if c == '"' then ['\\', '"']
  else if c == '\\' then ['\\', '\\']
  else if lacksGlyph c then ['\\', 'u', '{'] ++ hexDigits c.toNat ++ ['}']
  else [c]

def quoted (s : String) : String := .ofList (['"'] ++ s.toList.flatMap quoteChar ++ ['"'])

end Metagen.Text
