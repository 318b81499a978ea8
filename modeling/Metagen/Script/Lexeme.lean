import Metagen.Numeral.Reading
import Metagen.Source.Problem
import Metagen.Script.Token
import Metagen.Text.Ranges

/-! Lexemes: the pieces of script code that make a token on their own, without regard to what stands
around them. Strings are not among them, because their text may be cut by holes. -/

namespace Metagen.Script

open Text Numeral

/-- Faults found while a script is cut into tokens. -/
inductive LexFault where
  | unterminatedString
  /-- The text ends right after a backslash. -/
  | unfinishedEscape
  | unknownEscape (shown : Char)
  | integerOutOfRange (written : String)
  /-- An exclamation mark without an equals sign. -/
  | loneBang
  | unexpectedCharacter (c : Char)
  deriving DecidableEq, Repr

namespace LexFault

def code : LexFault → ErrorCode
  | unterminatedString | unfinishedEscape => .unterminatedString
  | unknownEscape _ => .invalidEscape
  | integerOutOfRange _ => .invalidNumber
  | loneBang | unexpectedCharacter _ => .unexpectedCharacter

def message : LexFault → String
  | unterminatedString => "Unterminated string literal"
  | unfinishedEscape => "Unexpected end of input in escape sequence"
  | unknownEscape shown => "Invalid escape sequence '\\" ++ shown.toString ++ "'"
  | integerOutOfRange written => "Invalid integer literal '" ++ written ++ "'"
  | loneBang => "Unexpected character '!'"
  | unexpectedCharacter c => "Unexpected character '" ++ c.toString ++ "'"

def suggestion : LexFault → Option String
  | unknownEscape _ => some "Write '\\\\' for a literal backslash"
  | loneBang => some "Use 'not' for boolean negation, or '!=' for inequality"
  | _ => none

end LexFault

/-- A piece of code: its token unless it is skipped, how many characters it has, and its fault. -/
structure Lexeme where
  kind : Option TokenKind
  length : Nat
  fault : Option LexFault := none

namespace Lexeme

/-- A digit of an integer, or the underscore that may stand between digits. -/
def isDigitOrGap (c : Char) : Bool := c.isDigit || c == '_'

/-- A hexadecimal digit, or the underscore that may stand between digits. -/
def isHexOrGap (c : Char) : Bool := (digitValue c).any (· < 16) || c == '_'

/-- Digits without the underscores between them. -/
def digitsOnly (cs : List Char) : List Char := cs.filter (· != '_')

/-- An integer of a base. One that does not fit in a word stands for zero, with a fault. -/
def integer (base : Nat) (written digits : List Char) : Lexeme :=
  match readWord base (digitsOnly digits) with
  | some n => ⟨some (.int n), written.length, none⟩
  | none => ⟨some (.int 0), written.length, some (.integerOutOfRange (.ofList written))⟩

/-- A number in decimal: with a point if a digit follows the point. -/
def decimal (cs : List Char) : Lexeme :=
  let whole := cs.takeWhile isDigitOrGap
  match cs.dropWhile isDigitOrGap with
  | '.' :: d :: more =>
    if d.isDigit then
      let written := whole ++ '.' :: (d :: more).takeWhile isDigitOrGap
      ⟨some (.float ((readFloat (digitsOnly written)).getD 0.0)), written.length, none⟩
    else integer 10 whole whole
  | _ => integer 10 whole whole

/-- A number, whose first character is a digit. -/
def number : List Char → Lexeme
  | '0' :: x :: more =>
    if x == 'x' || x == 'X' then
      let digits := more.takeWhile isHexOrGap
      integer 16 ('0' :: x :: digits) digits
    else decimal ('0' :: x :: more)
  | cs => decimal cs

def word (cs : List Char) : Lexeme :=
  let written := String.ofList (cs.takeWhile isIdentChar)
  let kind := match Keyword.ofSpelling? written with
    | some k => .mark (.keyword k)
    | none => .name written
  ⟨some kind, written.length, none⟩

/-- The symbol of two characters, or of one, that the code starts with. -/
def symbol? : List Char → Option (Symbol × Nat)
  | '=' :: '=' :: _ => some (.eqEq, 2)
  | '!' :: '=' :: _ => some (.notEq, 2)
  | '<' :: '=' :: _ => some (.lessEq, 2)
  | '>' :: '=' :: _ => some (.greaterEq, 2)
  | c :: _ =>
    let one (s : Symbol) : Option (Symbol × Nat) := some (s, 1)
    match c with
    | '+' => one .plus | '-' => one .minus | '*' => one .star | '/' => one .slash
    | '%' => one .percent | '<' => one .less | '>' => one .greater
    | '(' => one .leftParen | ')' => one .rightParen
    | '{' => one .leftBrace | '}' => one .rightBrace
    | '[' => one .leftBracket | ']' => one .rightBracket
    | ',' => one .comma | ':' => one .colon | '.' => one .dot | '=' => one .assign
    | _ => none
  | [] => none

/-- The lexeme at the start of code that has the first character `c`. -/
def ofCode (c : Char) (cs : List Char) : Lexeme :=
  if c == '\n' then ⟨some (.mark .newline), 1, none⟩
  else if c.isDigit then number (c :: cs)
  else if isIdentStart c then word (c :: cs)
  else match symbol? (c :: cs) with
    | some (s, n) => ⟨some (.mark (.symbol s)), n, none⟩
    | none => ⟨none, 1, some (if c == '!' then .loneBang else .unexpectedCharacter c)⟩

end Lexeme

end Metagen.Script
