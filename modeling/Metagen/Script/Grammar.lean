import Metagen.Script.Cursor

/-! The grammar of scripts. Each rule is written over the rules it uses, and `expression`,
`statement` and the rules between them are tied together by a bound on their nesting. From the
weakest to the strongest, operators are: `or`, `and`, one comparison, sums, products, and the
operators in front of their operand. Only `or` and `and` may end a line. -/

namespace Metagen.Script.Grammar

open Rule

/-- Expressions may stand inside each other this deep. -/
def maxDepth : Nat := 64

/-- Read one level of expression, unless there are too many around it already. -/
def nested {Result : Type} (rule : Rule Result) : Rule Result := do
  let around := (← get).depth
  if maxDepth ≤ around then
    unexpected ("expressions nest deeper than " ++ toString maxDepth ++ " levels")
  else fun r =>
    match rule { r with depth := around + 1 } with
    | .ok result r => .ok result { r with depth := around }
    | .error () r => .error () { r with depth := around }

/-- Join two operands. -/
def joined (left : Expr) (op : BinaryOp) (right : Expr) : Expr :=
  .binary (left.span.merge right.span) op left right

/-- The operator that the token is, among those of one strength. -/
abbrev Operators := TokenKind → Option BinaryOp

def orOperator : Operators
  | .mark (.keyword .orWord) => some .or
  | _ => none

def andOperator : Operators
  | .mark (.keyword .andWord) => some .and
  | _ => none

def comparison : Operators
  | .mark (.symbol .eqEq) => some .eq
  | .mark (.symbol .notEq) => some .notEq
  | .mark (.symbol .less) => some .less
  | .mark (.symbol .greater) => some .greater
  | .mark (.symbol .lessEq) => some .lessEq
  | .mark (.symbol .greaterEq) => some .greaterEq
  | _ => none

def sumOperator : Operators
  | .mark (.symbol .plus) => some .add
  | .mark (.symbol .minus) => some .sub
  | _ => none

def productOperator : Operators
  | .mark (.symbol .star) => some .mul
  | .mark (.symbol .slash) => some .div
  | .mark (.symbol .percent) => some .mod
  | _ => none

/-- More operands after the first one, joined from the left. `crossing` says whether the right
operand may start on another line. -/
def moreOperands (operators : Operators) (crossing : Bool) (operand : Rule Expr) :
    Nat → Expr → Rule Expr
  | 0, _ => fail
  | fuel + 1, left => do
    match operators (← peek) with
    | none => return left
    | some op =>
      discard advance
      if crossing then skipNewlines
      let right ← operand
      moreOperands operators crossing operand fuel (joined left op right)

/-- Operands of one strength, joined from the left. -/
def leftJoined (operators : Operators) (crossing : Bool) (operand : Rule Expr) : Rule Expr := do
  let left ← operand
  moreOperands operators crossing operand (← rounds) left

/-- At most one comparison; another one after it is reported, and left standing. -/
def compared (operand : Rule Expr) : Rule Expr := do
  let left ← operand
  match comparison (← peek) with
  | none => return left
  | some op =>
    discard advance
    let right ← operand
    if (comparison (← peek)).isSome then
      problem .unexpectedToken
        "comparison operators cannot be chained; use 'and' to combine: a < b and b < c"
    return joined left op right

/-- An expression over operands that have no weaker operator outside of brackets. -/
def operators (operand : Rule Expr) : Rule Expr :=
  leftJoined orOperator true <| leftJoined andOperator true <| compared <|
    leftJoined sumOperator false <| leftJoined productOperator false operand

def unaryOf (unary postfixed : Rule Expr) : Rule Expr := do
  let start ← currentSpan
  let op? : Option UnaryOp := match ← peek with
    | .mark (.keyword .notWord) => some .not
    | .mark (.symbol .minus) => some .neg
    | _ => none
  match op? with
  | none => postfixed
  | some op =>
    discard advance
    let operand ← unary
    return .unary (start.merge operand.span) op operand

/-- The name in front of a named argument, which a colon follows. -/
def argumentName : Rule (Option Ident) := do
  match ← peek, ← peekNext with
  | .name _, .mark (.symbol .colon) =>
    let name ← expectName
    discard advance
    skipNewlines
    return some name
  | _, _ => return none

/-- An argument of a call. Positional arguments come before named ones, and no name is given
twice; both are only reported. -/
def argument (expression : Rule Expr) (before : List (Option Ident × Expr)) :
    Rule (Option Ident × Expr) := do
  let name ← argumentName
  let value ← expression
  match name with
  | none =>
    if before.any (·.1.isSome) then
      problemAt .unexpectedToken "positional argument follows a named argument" value.span
  | some n =>
    if before.any (·.1.any (·.name == n.name)) then
      problemAt .unexpectedToken ("argument " ++ inQuotes n.name ++ " is given twice") n.span
  return (name, value)

def morePostfixes (expression : Rule Expr) : Nat → Expr → Rule Expr
  | 0, _ => fail
  | fuel + 1, object => do
    match ← peek with
    | .mark (.symbol .dot) =>
      discard advance
      let field ← expectFieldName
      morePostfixes expression fuel (.field (object.span.merge field.span) object field)
    | .mark (.symbol .leftParen) =>
      discard advance
      let args ← separatedUpTo (.symbol .rightParen) (argument expression)
      let span := object.span.merge (← previousSpan)
      morePostfixes expression fuel (.call span object args)
    | .mark (.symbol .leftBracket) =>
      discard advance
      skipNewlines
      let index ← expression
      skipNewlines
      expect (.symbol .rightBracket)
      let span := object.span.merge (← previousSpan)
      morePostfixes expression fuel (.index span object index)
    | _ => return object

/-- A primary expression with the fields, calls and indexes after it. -/
def postfixesOf (expression primary : Rule Expr) : Rule Expr := do
  let object ← primary
  morePostfixes expression (← rounds) object

/-- The range from `start` to the token read last. -/
def spanFrom (start : Span) : Rule Span := return start.merge (← previousSpan)

/-- A text, unless it is empty, as a part of an interpolated string. -/
def textPart (value : String) : List (Part Expr) := if value.isEmpty then [] else [.text value]

/-- The holes of an interpolated string and the texts after them. -/
def holes (expression : Rule Expr) : Nat → List (Part Expr) → Rule (List (Part Expr))
  | 0, _ => fail
  | fuel + 1, before => do
    expect .holeStart
    skipNewlines
    let inner ← expression
    skipNewlines
    expect .holeEnd
    match ← peek with
    | .textPart value =>
      discard advance
      holes expression fuel (before ++ .hole inner :: textPart value)
    | .textEnd value =>
      discard advance
      return before ++ .hole inner :: textPart value
    | _ =>
      problem .unterminatedString "unterminated string interpolation"
      fail

def interpolation (expression : Rule Expr) (first : String) (start : Span) : Rule Expr := do
  let parts ← holes expression (← rounds) (textPart first)
  return .interpolation (← spanFrom start) parts

/-- A key of a record and its value. A key given twice is only reported. -/
def recordField (expression : Rule Expr) (before : List (Ident × Expr)) : Rule (Ident × Expr) := do
  let key ← expectFieldName
  if before.any (·.1.name == key.name) then
    problemAt .unexpectedToken ("record key " ++ inQuotes key.name ++ " is given twice") key.span
  expect (.symbol .colon)
  skipNewlines
  let value ← expression
  return (key, value)

def primaryOf (expression : Rule Expr) (lambda : Rule Function) : Rule Expr := do
  let start ← currentSpan
  let single (e : Expr) : Rule Expr := do
    discard advance
    return e
  match ← peek with
  | .int n => single (.int start n)
  | .float x => single (.float start x)
  | .text s => single (.text start s)
  | .mark (.keyword .trueWord) => single (.bool start true)
  | .mark (.keyword .falseWord) => single (.bool start false)
  | .mark (.keyword .nilWord) => single (.nil start)
  | .name s => single (.name start s)
  | .textStart s =>
    discard advance
    interpolation expression s start
  | .mark (.symbol .leftBracket) =>
    discard advance
    let items ← separatedUpTo (.symbol .rightBracket) fun _ => expression
    return .list (← spanFrom start) items
  | .mark (.symbol .leftBrace) =>
    discard advance
    let fields ← separatedUpTo (.symbol .rightBrace) (recordField expression)
    return .record (← spanFrom start) fields
  | .mark (.symbol .leftParen) =>
    discard advance
    skipNewlines
    let inner ← expression
    skipNewlines
    expect (.symbol .rightParen)
    return .paren (← spanFrom start) inner
  | .mark (.keyword .fnWord) => return .lambda (← lambda)
  | kind => unexpected ("expected expression, got " ++ inQuotes kind.render)

/-- A parameter. One listed twice is only reported. -/
def parameter (before : List Ident) : Rule Ident := do
  let name ← expectName
  if before.any (·.name == name.name) then
    problemAt .unexpectedToken ("parameter " ++ inQuotes name.name ++ " is listed twice") name.span
  return name

/-- A function from its reserved word on. A declaration has a name. -/
def functionOf (block : Rule Block) (named : Bool) : Rule Function := do
  let start ← currentSpan
  discard advance
  let name ← if named then some <$> expectName else pure none
  expect (.symbol .leftParen)
  let params ← separatedUpTo (.symbol .rightParen) parameter
  let body ← block
  return .mk (← spanFrom start) name params body

/-- Statements up to a closing brace, which is not read, or the end. After a statement that gave
up, reading goes on where the next one may start, until the report is full. -/
def statements (statement : Rule Stmt) : Nat → List Stmt → Rule (List Stmt)
  | 0, before => return before
  | fuel + 1, before => do
    if (← at? (.symbol .rightBrace)) || (← at? .endOfInput) || (← isFull) then return before
    let stmt? ← orElseNone statement
    if stmt?.isNone then resync
    skipNewlines
    statements statement fuel (before ++ stmt?.toList)

def blockOf (statement : Rule Stmt) : Rule Block := do
  let start ← currentSpan
  expect (.symbol .leftBrace)
  skipNewlines
  let stmts ← statements statement (← rounds) []
  expect (.symbol .rightBrace)
  return .mk (← spanFrom start) stmts

/-- A branch from its reserved word on. What follows otherwise may start on a later line. -/
def branchOf (expression : Rule Expr) (block : Rule Block) (branch : Rule Branch) :
    Rule Branch := do
  let start ← currentSpan
  discard advance
  let condition ← expression
  let body ← block
  let otherwise ←
    if (← get).cursor.pastNewlines = .mark (.keyword .elseWord) then do
      skipNewlines
      discard advance
      if ← at? (.keyword .ifWord) then Otherwise.branch <$> branch
      else Otherwise.block <$> block
    else pure .nothing
  return .mk (← spanFrom start) condition body otherwise

/-- A statement that ends here: its range reaches to the token read last. -/
def ended (start : Span) (stmt : Span → Stmt) : Rule Stmt := do
  let span ← spanFrom start
  expectStatementEnd
  return stmt span

def bindStatement (expression : Rule Expr) : Rule Stmt := do
  let start := (← advance).span
  let name ← expectName
  expect (.symbol .assign)
  let value ← expression
  ended start fun span => .bind span name value

/-- The expression is a place that can be assigned to. -/
def isPlace : Expr → Bool
  | .name .. | .field .. | .index .. => true
  | _ => false

def assignStatement (expression place : Rule Expr) : Rule Stmt := do
  let start := (← advance).span
  let target ← place
  unless isPlace target do
    problemAt .invalidAssignTarget "can only assign to a name, a field or an index" target.span
    fail
  expect (.symbol .assign)
  let value ← expression
  ended start fun span => .assign span target value

def forStatement (expression : Rule Expr) (block : Rule Block) : Rule Stmt := do
  let start := (← advance).span
  let item ← expectName
  let index ← if ← eat (.symbol .comma) then some <$> expectName else pure none
  expect (.keyword .inWord)
  let iterable ← expression
  let body ← block
  ended start fun span => .forEach span item index iterable body

/-- A loop with a condition, from its reserved word on. -/
def whileStatement (expression : Rule Expr) (block : Rule Block) : Rule Stmt := do
  let start := (← advance).span
  let condition ← expression
  let body ← block
  ended start fun span => .whileTrue span condition body

/-- The result of a function, from its reserved word on. -/
def resultStatement (expression : Rule Expr) : Rule Stmt := do
  let start := (← advance).span
  let value ← match ← peek with
    | .mark .newline | .mark (.symbol .rightBrace) | .mark .endOfInput => pure none
    | _ => some <$> expression
  ended start fun span => .result span value

def checkStatement (expression : Rule Expr) : Rule Stmt := do
  let start := (← advance).span
  let condition ← expression
  let message ← if ← eat (.symbol .comma) then some <$> expression else pure none
  ended start fun span => .check span condition message

def moreNames : Nat → List Ident → Rule (List Ident)
  | 0, _ => fail
  | fuel + 1, before => do
    if ← eat (.symbol .comma) then moreNames fuel (before ++ [← expectName])
    else return before

/-- A list of global names, from its reserved word on. -/
def globalsStatement : Rule Stmt := do
  let start := (← advance).span
  let first ← expectName
  let names ← moreNames (← rounds) [first]
  ended start fun span => .globals span names

/-- An expression on its own. An equals sign after it is a forgotten reserved word. -/
def expressionStatement (expression : Rule Expr) : Rule Stmt := do
  let value ← expression
  if ← at? (.symbol .assign) then
    unexpected "assignment needs 'let' for a new name or 'set' for an existing one"
  expectStatementEnd
  return .expr value

/-- A statement. Only a reserved word `fn` that a name follows starts a declaration. -/
def statementOf (expression place : Rule Expr) (declaration : Rule Function) (block : Rule Block)
    (branch : Rule Branch) : Rule Stmt := do
  match ← peek with
  | .mark (.keyword .letWord) => bindStatement expression
  | .mark (.keyword .setWord) => assignStatement expression place
  | .mark (.keyword .fnWord) =>
    match ← peekNext with
    | .name _ =>
      let function ← declaration
      expectStatementEnd
      return .function function
    | _ => expressionStatement expression
  | .mark (.keyword .ifWord) =>
    let first ← branch
    expectStatementEnd
    return .branch first
  | .mark (.keyword .forWord) => forStatement expression block
  | .mark (.keyword .whileWord) => whileStatement expression block
  | .mark (.keyword .breakWord) => ended (← advance).span fun span => .leave span
  | .mark (.keyword .continueWord) => ended (← advance).span fun span => .next span
  | .mark (.keyword .returnWord) => resultStatement expression
  | .mark (.keyword .assertWord) => checkStatement expression
  | .mark (.keyword .globalWord) => globalsStatement
  | _ => expressionStatement expression

mutual

def expression : Nat → Rule Expr
  | 0 => fail
  | fuel + 1 => nested (operators (unary fuel))

def unary : Nat → Rule Expr
  | 0 => fail
  | fuel + 1 => unaryOf (unary fuel) (postfixes fuel)

def postfixes : Nat → Rule Expr
  | 0 => fail
  | fuel + 1 => postfixesOf (expression fuel) (primary fuel)

def primary : Nat → Rule Expr
  | 0 => fail
  | fuel + 1 => primaryOf (expression fuel) (function fuel false)

def function : Nat → Bool → Rule Function
  | 0, _ => fail
  | fuel + 1, named => functionOf (block fuel) named

def block : Nat → Rule Block
  | 0 => fail
  | fuel + 1 => blockOf (statement fuel)

def branch : Nat → Rule Branch
  | 0 => fail
  | fuel + 1 => branchOf (expression fuel) (block fuel) (branch fuel)

def statement : Nat → Rule Stmt
  | 0 => fail
  | fuel + 1 =>
    statementOf (expression fuel) (postfixes fuel) (function fuel true) (block fuel) (branch fuel)

end

/-- Statements of a script up to its end. A closing brace that nothing opened is reported and
passed. -/
def topLevel (statement : Rule Stmt) : Nat → List Stmt → Rule (List Stmt)
  | 0, before => return before
  | fuel + 1, before => do
    if (← at? .endOfInput) || (← isFull) then return before
    if ← at? (.symbol .rightBrace) then
      problem .unexpectedToken "unmatched '\x7d'"
      discard advance
      skipNewlines
      topLevel statement fuel before
    else
      let stmt? ← orElseNone statement
      if stmt?.isNone then resync
      skipNewlines
      topLevel statement fuel (before ++ stmt?.toList)

def program (fuel : Nat) : Rule Program := do
  skipNewlines
  let start ← currentSpan
  let stmts ← topLevel (statement fuel) (← rounds) []
  return ⟨← spanFrom start, stmts⟩

end Metagen.Script.Grammar

namespace Metagen.Script

/-- What reading a script gives: the program if there was no problem, and the problems. -/
structure Parsed where
  program : Option Program
  report : Report

/-- The first token and those after it; there is always one, the end mark. -/
def Cursor.ofTokens : List Token → Cursor
  | [] => ⟨none, ⟨.mark .endOfInput, .point .origin⟩, []⟩
  | t :: ts => ⟨none, t, ts⟩

/-- Read tokens by the grammar. Rules nest at most eight deep between two tokens, which bounds the
nesting by the number of tokens. -/
def parseTokens (file : SourceFile) (tokens : List Token) : Parsed :=
  let start : Reading := ⟨file, .ofTokens tokens, {}, 0⟩
  match Grammar.program (8 * tokens.length + 8) start with
  | .ok program r => ⟨if r.report.hasProblems then none else some program, r.report⟩
  | .error () r => ⟨none, r.report⟩

/-- Read a script. Problems of its tokens come before those that the grammar keeps, and with any
problem at all there is no program. -/
def parse (file : SourceFile) : Parsed :=
  let (tokens, faults) := tokens file
  let parsed := parseTokens file tokens
  if faults.hasProblems then ⟨none, parsed.report.kept.foldl .push faults⟩ else parsed

end Metagen.Script
