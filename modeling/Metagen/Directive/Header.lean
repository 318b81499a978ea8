import Metagen.Directive.Basic
import Metagen.Grouping
import Metagen.Script.Token
import Metagen.Text.Ranges
import Metagen.Text.Search
import Metagen.Text.WordTable

/-! The lines of a source that carry directives: lines that name the generated file, and header
lines, which name what a directive defines and imports. -/

namespace Metagen

open Text

/-- What is wrong with a header, or with the end of a directive. -/
inductive HeaderFault where
  | unknownKind (word : String)
  | noNames (kind : DeclKind)
  | invalidName (name : String)
  | reservedName (name : String)
  | repeatedName (name : String) (kind : DeclKind)
  | unterminated
  deriving DecidableEq, Repr

namespace HeaderFault

def code : HeaderFault → ErrorCode
  | unknownKind _ => .unknownHeaderKind
  | noNames _ => .emptyIdentifierList
  | invalidName _ => .invalidIdentifier
  | reservedName _ => .reservedIdentifier
  | repeatedName .. => .duplicateIdentifier
  | unterminated => .unterminatedBody

def message : HeaderFault → String
  | unknownKind word =>
    "unknown header kind \"" ++ word ++ "\"; expected export, import or global"
  | noNames kind => "\"" ++ kind.word ++ "\" lists no identifiers"
  | invalidName name => "\"" ++ name ++ "\" is not a valid identifier"
  | reservedName name => "\"" ++ name ++ "\" is reserved and cannot be declared"
  | repeatedName name kind => "\"" ++ name ++ "\" is listed more than once as " ++ kind.word
  | unterminated => "meta-directive is not terminated; expected \"*/\""

/-- The diagnostic of a fault on some lines of a file. -/
def diagnostic (fault : HeaderFault) (file : SourceFile) (lines : List Nat) : Diagnostic :=
  ⟨fault.code, .structural, fault.message, lines.map fun line => .ofFile file line none⟩

end HeaderFault

namespace Header

def after? (beginning : String) (cs : List Char) : Option (List Char) :=
  if beginning.toList.isPrefixOf cs then some (cs.drop beginning.length) else none

/-- What follows blank characters. -/
def afterBlanks (cs : List Char) : List Char := cs.dropWhile isBlank

/-- What follows a number sign and a word, with blank characters before each of them. -/
def afterSignAndWord? (word : String) (cs : List Char) : Option (List Char) := do
  let cs ← after? "#" (afterBlanks cs)
  after? word (afterBlanks cs)

/-- The text up to a closing character, of which there is at least one character. -/
def enclosed? (close : Char) (cs : List Char) : Option String :=
  let inner := cs.takeWhile (· != close)
  if inner.isEmpty || inner.length == cs.length then none else some (.ofList inner)

/-- The target of an include line, and whether the line is commented out. The target stands between
double quotes or angle brackets, and whatever follows it is ignored. -/
def includeTarget? (line : String) : Option (String × Bool) := do
  let cs := afterBlanks line.toList
  let (commented, cs) := match after? "//" cs with
    | some rest => (true, rest)
    | none => (false, cs)
  let target ← (match afterBlanks (← afterSignAndWord? "include" cs) with
    | '"' :: rest => enclosed? '"' rest
    | '<' :: rest => enclosed? '>' rest
    | _ => none)
  return (target, commented)

def isWordChar (c : Char) : Bool := inRanges wordRanges c.toNat

/-- What follows the mark of a header, which ends where a word ends. -/
def afterMark? (cs : List Char) : Option String := do
  let rest ← afterSignAndWord? "meta" cs
  match rest with
  | c :: _ => if isWordChar c then none else some (.ofList rest)
  | [] => some ""

/-- What follows the mark of a header at the beginning of a comment. -/
def afterCommentMark? (line : String) : Option String := do
  afterMark? (← after? "/*" (afterBlanks line.toList))

/-- A text up to the end of a comment, and whether there was one. -/
def cutComment (text : String) : String × Bool :=
  match cutAt "*/".toList text.toList with
  | some (before, _) => (.ofList before, true)
  | none => (text, false)

/-- What follows the mark of the first line of a header. -/
def first? (mode : ScanMode) (line : String) : Option String :=
  match mode with
  | .host => afterCommentMark? line
  | .script => afterMark? line.toList

/-- A later header line names a kind or nothing at all, so that other lines with a mark, such as
comments, belong to the script. -/
def continues (remainder : String) : Bool :=
  match (words (cutComment remainder).1).head? with
  | none => true
  | some word => (DeclKind.ofHeader? word).isSome

/-- What follows the mark of a later line of a header. In a host file such a line may open a
comment, too. -/
def later? (mode : ScanMode) (line : String) : Option String :=
  let remainder := match mode with
    | .host => afterCommentMark? line <|> afterMark? line.toList
    | .script => afterMark? line.toList
  remainder.filter continues

/-- The name of the generator, which no directive can declare. -/
def reservedName : String := "Meta"

def nameFault? (name : String) : Option HeaderFault :=
  if !isIdentifier name then some (.invalidName name)
  else if name == reservedName || (Script.Keyword.ofSpelling? name).isSome then
    some (.reservedName name)
  else none

/-- Kind and names of a header line: nothing, or a kind, white space, and names between commas. -/
def parse (remainder : String) : Except HeaderFault (List (DeclKind × String)) :=
  let text := trim remainder
  if text.isEmpty then .ok []
  else
    let word := String.ofList (text.toList.takeWhile (!isBlank ·))
    let rest := String.ofList (text.toList.dropWhile (!isBlank ·))
    match DeclKind.ofHeader? word with
    | none => .error (.unknownKind word)
    | some kind =>
      if isAllBlank rest then .error (.noNames kind)
      else
        let names := (splitAt "," rest).map trim
        match names.findSome? nameFault? with
        | some fault => .error fault
        | none => .ok (names.map (kind, ·))

/-- A declaration that another one of the same kind repeats, with the lines of all of them. -/
def repeated? (decls : List Declaration) : Option (HeaderFault × List Nat) :=
  let groups := groupByKey (decls.map fun d => ((d.kind, d.name), d.line))
  groups.findSome? fun ((kind, name), lines) =>
    if 1 < lines.length then some (.repeatedName name kind, lines) else none

end Header

end Metagen
