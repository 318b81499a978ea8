import Metagen.Source.Span

/-! Scripts as trees. Every node knows the range it was written in. -/

namespace Metagen.Script

/-- A name and where it is written. -/
structure Ident where
  name : String
  span : Span
  deriving DecidableEq, Repr

inductive BinaryOp where
  | or | and | eq | notEq | less | greater | lessEq | greaterEq | add | sub | mul | div | mod
  deriving DecidableEq, Repr

/-- How an operator is written. -/
def BinaryOp.spelling : BinaryOp → String
  | or => "or" | and => "and" | eq => "==" | notEq => "!=" | less => "<" | greater => ">"
  | lessEq => "<=" | greaterEq => ">=" | add => "+" | sub => "-" | mul => "*" | div => "/"
  | mod => "%"

/-- Operators in front of one operand. -/
inductive UnaryOp where
  | neg | not
  deriving DecidableEq, Repr

/-- A part of an interpolated string: text, or what stands in a hole. -/
inductive Part (Hole : Type) where
  | text (value : String)
  | hole (value : Hole)

mutual

inductive Expr where
  | int (span : Span) (value : Int64)
  | float (span : Span) (value : Float)
  | text (span : Span) (value : String)
  | interpolation (span : Span) (parts : List (Part Expr))
  | bool (span : Span) (value : Bool)
  | nil (span : Span)
  | list (span : Span) (items : List Expr)
  | record (span : Span) (fields : List (Ident × Expr))
  | name (span : Span) (name : String)
  /-- A call; with a field as its callee it is the call of a method. -/
  | call (span : Span) (callee : Expr) (args : List (Option Ident × Expr))
  | field (span : Span) (object : Expr) (field : Ident)
  | index (span : Span) (object index : Expr)
  | binary (span : Span) (op : BinaryOp) (left right : Expr)
  | unary (span : Span) (op : UnaryOp) (operand : Expr)
  | lambda (function : Function)
  | paren (span : Span) (inner : Expr)

inductive Stmt where
  | bind (span : Span) (name : Ident) (value : Expr)
  /-- Assignment to a name, a field or an index. -/
  | assign (span : Span) (target value : Expr)
  | function (function : Function)
  | branch (branch : Branch)
  | forEach (span : Span) (item : Ident) (index : Option Ident) (iterable : Expr) (body : Block)
  | whileTrue (span : Span) (condition : Expr) (body : Block)
  | leave (span : Span)
  | next (span : Span)
  | result (span : Span) (value : Option Expr)
  | check (span : Span) (condition : Expr) (message : Option Expr)
  /-- Names that are bound in the directive's own names wherever they are bound. -/
  | globals (span : Span) (names : List Ident)
  | expr (value : Expr)

inductive Block where
  | mk (span : Span) (stmts : List Stmt)

/-- A declared function, or a lambda, which has no name. -/
inductive Function where
  | mk (span : Span) (name : Option Ident) (params : List Ident) (body : Block)

/-- A condition, its block, and what follows otherwise. -/
inductive Branch where
  | mk (span : Span) (condition : Expr) (body : Block) (otherwise : Otherwise)

/-- What follows a block whose condition fails. -/
inductive Otherwise where
  | nothing
  | block (body : Block)
  | branch (next : Branch)

end

structure Program where
  span : Span
  stmts : List Stmt

namespace Function

def span : Function → Span | mk span .. => span
def name : Function → Option Ident | mk _ name .. => name
def params : Function → List Ident | mk _ _ params _ => params
def body : Function → Block | mk _ _ _ body => body

def label (f : Function) : String := (f.name.map (·.name)).getD "<lambda>"

end Function

def Block.span : Block → Span | mk span _ => span
def Block.stmts : Block → List Stmt | mk _ stmts => stmts
def Branch.span : Branch → Span | mk span .. => span

def Expr.span : Expr → Span
  | int s _ | float s _ | text s _ | interpolation s _ | bool s _ | nil s | list s _ | record s _
  | name s _ | call s _ _ | field s _ _ | index s _ _ | binary s _ _ _ | unary s _ _
  | paren s _ => s
  | lambda f => f.span

def Stmt.span : Stmt → Span
  | bind s _ _ | assign s _ _ | forEach s _ _ _ _ | whileTrue s _ _ | leave s | next s | result s _
  | check s _ _ | globals s _ => s
  | function f => f.span
  | branch b => b.span
  | expr e => e.span

end Metagen.Script
