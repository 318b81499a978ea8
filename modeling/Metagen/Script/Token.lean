import Metagen.Numeral.Shortest
import Metagen.Source.Span

/-! Tokens of the script language. A token either carries content, such as a name or the text of a
string, or is a fixed mark. An interpolated string is a sequence: its first text, and for each hole
the mark that opens it, the tokens inside, the mark that closes it, and the text that follows. -/

namespace Metagen.Script

inductive Keyword where
  | letWord | setWord | fnWord | returnWord | ifWord | elseWord | forWord | inWord | whileWord
  | breakWord | continueWord | assertWord | globalWord | trueWord | falseWord | nilWord
  | andWord | orWord | notWord
  deriving DecidableEq, Repr

namespace Keyword

/-- Every reserved word, in the order of its constructor. -/
def all : List Keyword :=
  [letWord, setWord, fnWord, returnWord, ifWord, elseWord, forWord, inWord, whileWord, breakWord,
    continueWord, assertWord, globalWord, trueWord, falseWord, nilWord, andWord, orWord, notWord]

/-- How a reserved word is written. -/
def spelling : Keyword → String
  | letWord => "let" | setWord => "set" | fnWord => "fn" | returnWord => "return" | ifWord => "if"
  | elseWord => "else" | forWord => "for" | inWord => "in" | whileWord => "while"
  | breakWord => "break" | continueWord => "continue" | assertWord => "assert"
  | globalWord => "global" | trueWord => "true" | falseWord => "false" | nilWord => "nil"
  | andWord => "and" | orWord => "or" | notWord => "not"

def ofSpelling? (s : String) : Option Keyword := all.find? (·.spelling == s)

end Keyword

inductive Symbol where
  | plus | minus | star | slash | percent | eqEq | notEq | less | greater | lessEq | greaterEq
  | leftParen | rightParen | leftBrace | rightBrace | leftBracket | rightBracket
  | comma | colon | dot | assign
  deriving DecidableEq, Repr

/-- How a symbol is written. -/
def Symbol.spelling : Symbol → String
  | plus => "+" | minus => "-" | star => "*" | slash => "/" | percent => "%"
  | eqEq => "==" | notEq => "!=" | less => "<" | greater => ">" | lessEq => "<=" | greaterEq => ">="
  | leftParen => "(" | rightParen => ")" | leftBrace => "\x7b" | rightBrace => "\x7d"
  | leftBracket => "[" | rightBracket => "]"
  | comma => "," | colon => ":" | dot => "." | assign => "="

inductive Mark where
  | keyword (word : Keyword)
  | symbol (symbol : Symbol)
  /-- Opens a hole of an interpolated string. -/
  | holeStart
  /-- Closes a hole of an interpolated string. -/
  | holeEnd
  | newline
  /-- Stands after the last token. -/
  | endOfInput
  deriving DecidableEq, Repr

def Mark.render : Mark → String
  | .keyword k => k.spelling
  | .symbol s => s.spelling
  | .holeStart => "$\x7b"
  | .holeEnd => "interpolation end"
  | .newline => "newline"
  | .endOfInput => "end of input"

inductive TokenKind where
  | mark (mark : Mark)
  | int (value : Int64)
  | float (value : Float)
  /-- A string without holes. -/
  | text (value : String)
  /-- Text before the first hole. -/
  | textStart (value : String)
  /-- Text between two holes. -/
  | textPart (value : String)
  /-- Text after the last hole. -/
  | textEnd (value : String)
  | name (value : String)
  deriving DecidableEq

namespace TokenKind

def render : TokenKind → String
  | mark m => m.render
  | int n => toString n.toInt
  | float x => Numeral.floatText x
  | text s => "\"" ++ s ++ "\""
  | textStart _ => "string start"
  | textPart _ => "string part"
  | textEnd _ => "string end"
  | name s => s

def keyword? : TokenKind → Option Keyword
  | mark (.keyword word) => some word
  | _ => none

end TokenKind

structure Token where
  kind : TokenKind
  span : Span
  deriving DecidableEq

end Metagen.Script
