import Mathlib.Data.List.Chain
import Metagen.Script.Token
import Metagen.Proofs.Script.Parts

/-! How a script is written: a tree from left to right as a list of tokens. A tree leaves open how
the name of a field is spelled and whether a comma stands in front of a closing bracket. -/

namespace Metagen.Script

/-- What stands at one place of a written tree. -/
inductive Written where
  | token (kind : TokenKind)
  /-- The name of a field or a key, which may also be spelled as a reserved word or a string. -/
  | key (name : String)
  /-- A comma that may be left out. -/
  | optionalComma

/-- The token is a spelling of this name. -/
def TokenKind.SpellsKey (name : String) : TokenKind → Prop
  | .name s | .text s => s = name
  | .mark (.keyword word) => word.spelling = name
  | _ => False

/-- The tokens are what is written. -/
inductive Spells : List Written → List TokenKind → Prop where
  | nil : Spells [] []
  | token {kind ws ks} (h : Spells ws ks) : Spells (.token kind :: ws) (kind :: ks)
  | key {name kind ws ks} (hKey : kind.SpellsKey name) (h : Spells ws ks) :
      Spells (.key name :: ws) (kind :: ks)
  | comma {ws ks} (h : Spells ws ks) :
      Spells (.optionalComma :: ws) (.mark (.symbol .comma) :: ks)
  | noComma {ws ks} (h : Spells ws ks) : Spells (.optionalComma :: ws) ks

namespace Written

abbrev symbol (s : Symbol) : Written := .token (.mark (.symbol s))

abbrev word (k : Keyword) : Written := .token (.mark (.keyword k))

abbrev name (n : Ident) : Written := .token (.name n.name)

/-- What stands between an item and those after it: a comma, which may be left out after the last.
-/
def after {Item : Type} : List Item → Written
  | [] => .optionalComma
  | _ :: _ => symbol .comma

/-- The text behind a hole of an interpolated string, of which these parts are still to come. -/
def textAfter : List (Part Expr) → Written
  | [] => .token (.textEnd "")
  | [.text value] => .token (.textEnd value)
  | .text value :: _ => .token (.textPart value)
  | .hole _ :: _ => .token (.textPart "")

/-- The text in front of the first hole. -/
def textBefore : List (Part Expr) → Written
  | .text value :: _ => .token (.textStart value)
  | _ => .token (.textStart "")

/-- Items with commas between them, of which one may stand after the last. -/
def joined {Item : Type} (write : Item → List Written) : List Item → List Written
  | [] => []
  | item :: rest => write item ++ after rest :: joined write rest

def params : List Ident → List Written := joined fun p => [name p]

def names : List Ident → List Written
  | [] => []
  | [n] => [name n]
  | n :: rest => name n :: symbol .comma :: names rest

def index : Option Ident → List Written
  | none => []
  | some n => [symbol .comma, name n]

def argumentName : Option Ident → List Written
  | none => []
  | some n => [name n, symbol .colon]

def functionName : Option Ident → List Written
  | none => []
  | some n => [name n]

end Written

def BinaryOp.written : BinaryOp → Written
  | or => .word .orWord | and => .word .andWord | eq => .symbol .eqEq | notEq => .symbol .notEq
  | less => .symbol .less | greater => .symbol .greater | lessEq => .symbol .lessEq
  | greaterEq => .symbol .greaterEq | add => .symbol .plus | sub => .symbol .minus
  | mul => .symbol .star | div => .symbol .slash | mod => .symbol .percent

def UnaryOp.written : UnaryOp → Written
  | neg => .symbol .minus
  | not => .word .notWord

open Written

mutual

/-- An expression as it is written, when `eol` stands after each statement. -/
def Expr.written (eol : List Written) : Expr → List Written
  | .int _ n => [.token (.int n)]
  | .float _ x => [.token (.float x)]
  | .text _ s => [.token (.text s)]
  | .interpolation _ parts => textBefore parts :: holesWritten eol parts
  | .bool _ true => [word .trueWord]
  | .bool _ false => [word .falseWord]
  | .nil _ => [word .nilWord]
  | .list _ items => symbol .leftBracket :: (itemsWritten eol items ++ [symbol .rightBracket])
  | .record _ fields => symbol .leftBrace :: (fieldsWritten eol fields ++ [symbol .rightBrace])
  | .name _ s => [.token (.name s)]
  | .call _ callee args =>
    callee.written eol ++ symbol .leftParen :: (argsWritten eol args ++ [symbol .rightParen])
  | .field _ object field => object.written eol ++ [symbol .dot, .key field.name]
  | .index _ object index =>
    object.written eol ++ symbol .leftBracket :: (index.written eol ++ [symbol .rightBracket])
  | .binary _ op left right => left.written eol ++ op.written :: right.written eol
  | .unary _ op operand => op.written :: operand.written eol
  | .lambda f => f.written eol
  | .paren _ inner => symbol .leftParen :: (inner.written eol ++ [symbol .rightParen])

/-- The holes of an interpolated string, and the texts behind them. -/
def holesWritten (eol : List Written) : List (Part Expr) → List Written
  | [] => []
  | .text _ :: rest => holesWritten eol rest
  | .hole e :: rest =>
    .token (.mark .holeStart) :: (e.written eol ++
      .token (.mark .holeEnd) :: textAfter rest :: holesWritten eol rest)

def itemsWritten (eol : List Written) : List Expr → List Written
  | [] => []
  | item :: rest => item.written eol ++ after rest :: itemsWritten eol rest

def fieldsWritten (eol : List Written) : List (Ident × Expr) → List Written
  | [] => []
  | (k, value) :: rest =>
    .key k.name :: symbol .colon :: (value.written eol ++ after rest :: fieldsWritten eol rest)

def argsWritten (eol : List Written) : List (Option Ident × Expr) → List Written
  | [] => []
  | (name, value) :: rest =>
    argumentName name ++ (value.written eol ++ after rest :: argsWritten eol rest)

def Stmt.written (eol : List Written) : Stmt → List Written
  | .bind _ n value => word .letWord :: name n :: symbol .assign :: value.written eol
  | .assign _ target value =>
    word .setWord :: (target.written eol ++ symbol .assign :: value.written eol)
  | .function f => f.written eol
  | .branch b => b.written eol
  | .forEach _ item i iterable body =>
    word .forWord :: name item ::
      (index i ++ word .inWord :: (iterable.written eol ++ body.written eol))
  | .whileTrue _ condition body =>
    word .whileWord :: (condition.written eol ++ body.written eol)
  | .leave _ => [word .breakWord]
  | .next _ => [word .continueWord]
  | .result _ none => [word .returnWord]
  | .result _ (some e) => word .returnWord :: e.written eol
  | .check _ condition none => word .assertWord :: condition.written eol
  | .check _ condition (some e) =>
    word .assertWord :: (condition.written eol ++ symbol .comma :: e.written eol)
  | .globals _ ns => word .globalWord :: names ns
  | .expr e => e.written eol

def stmtsWritten (eol : List Written) : List Stmt → List Written
  | [] => []
  | s :: rest => s.written eol ++ eol ++ stmtsWritten eol rest

def Block.written (eol : List Written) : Block → List Written
  | .mk _ stmts => symbol .leftBrace :: (eol ++ stmtsWritten eol stmts ++ [symbol .rightBrace])

def Function.written (eol : List Written) : Function → List Written
  | .mk _ n ps body =>
    word .fnWord :: (functionName n ++ symbol .leftParen :: (params ps ++
      symbol .rightParen :: body.written eol))

def Branch.written (eol : List Written) : Branch → List Written
  | .mk _ condition body otherwise =>
    word .ifWord :: (condition.written eol ++ body.written eol ++ otherwise.written eol)

def Otherwise.written (eol : List Written) : Otherwise → List Written
  | .nothing => []
  | .block body => word .elseWord :: body.written eol
  | .branch next => word .elseWord :: next.written eol

end

/-- A script as it is written, with the end mark. -/
def Program.written (eol : List Written) (p : Program) : List Written :=
  stmtsWritten eol p.stmts ++ [.token (.mark .endOfInput)]

def Node.written (eol : List Written) : Node → List Written
  | expr e => e.written eol
  | stmt s => s.written eol
  | block b => b.written eol
  | branch b => b.written eol
  | function f => f.written eol

/-- How strong an operator binds its operands. -/
def BinaryOp.strength : BinaryOp → Nat
  | or => 0
  | and => 1
  | eq | notEq | less | greater | lessEq | greaterEq => 2
  | add | sub => 3
  | mul | div | mod => 4

/-- How strong an expression holds together, whose operators stand in no brackets. -/
def Expr.strength : Expr → Nat
  | binary _ op _ _ => op.strength
  | unary .. => 5
  | _ => 6

/-- The least strength of a left operand. Operators of one strength are joined from the left, but
comparisons are not joined. -/
def BinaryOp.leftStrength (op : BinaryOp) : Nat := if op.strength = 2 then 3 else op.strength

/-- The name of a named argument comes after those without names. -/
def PositionalFirst (args : List (Option Ident × Expr)) : Prop :=
  args.Pairwise fun first second => first.1.isSome = true → second.1.isSome = true

/-- The parts of an interpolated string: with a hole, without empty texts, and with a hole between
any two texts. -/
structure PartsFit (parts : List (Part Expr)) : Prop where
  hole : ∃ e, .hole e ∈ parts
  filled : ∀ value, .text value ∈ parts → value ≠ ""
  apart : parts.IsChain fun first second => first.hole?.isSome = true ∨ second.hole?.isSome = true

/-- The expression is a place that can be assigned to. -/
def Expr.IsPlace : Expr → Prop
  | name .. | field .. | index .. => True
  | _ => False

/-- A node has the shape that the grammar asks of it, its parts apart. -/
def Node.FitsGrammar : Node → Prop
  | expr (.binary _ op left right) => op.leftStrength ≤ left.strength ∧ op.strength < right.strength
  | expr (.unary _ _ operand) => 5 ≤ operand.strength
  | expr (.call _ callee args) =>
    6 ≤ callee.strength ∧ ((args.filterMap (·.1)).map (·.name)).Nodup ∧ PositionalFirst args
  | expr (.field _ object _) => 6 ≤ object.strength
  | expr (.index _ object _) => 6 ≤ object.strength
  | expr (.record _ fields) => (fields.map (·.1.name)).Nodup
  | expr (.interpolation _ parts) => PartsFit parts
  | expr (.lambda f) => f.name = none
  | stmt (.assign _ target _) => target.IsPlace
  | stmt (.function f) => f.name.isSome = true
  | stmt (.globals _ names) => names ≠ []
  | function f => (f.params.map (·.name)).Nodup
  | _ => True

/-- A node and all its parts have the shape that the grammar asks of them. -/
def Node.Shaped (node : Node) : Prop := ∀ part : Node, part.Inside node → part.FitsGrammar

/-- A tree has a good shape if its node fits the grammar and all its parts have one. -/
theorem Node.Shaped.of_parts {node : Node} (hFits : node.FitsGrammar)
    (hParts : ∀ part ∈ node.parts, part.Shaped) : node.Shaped := by
  intro part hInside
  rcases Relation.ReflTransGen.cases_head hInside with rfl | ⟨next, hNext, hRest⟩
  · exact hFits
  · exact hParts next hNext part hRest

theorem Node.Shaped.fitsGrammar {node : Node} (h : node.Shaped) : node.FitsGrammar :=
  h node (.refl node)

theorem Node.Shaped.part {node part : Node} (h : node.Shaped) (hPart : part ∈ node.parts) :
    part.Shaped := fun _ hInside => h _ (Relation.ReflTransGen.head hPart hInside)

/-- All statements of the program have the shape that the grammar asks of them. -/
def Program.Shaped (p : Program) : Prop := ∀ s ∈ p.stmts, (Node.stmt s).Shaped

/-- Tokens that spell two writings one behind the other spell both together. -/
theorem Spells.append {ws ws' : List Written} {ks ks' : List TokenKind} (h : Spells ws ks)
    (h' : Spells ws' ks') : Spells (ws ++ ws') (ks ++ ks') := by
  induction h with
  | nil => exact h'
  | token _ ih => exact .token ih
  | key hKey _ ih => exact .key hKey ih
  | comma _ ih => exact .comma ih
  | noComma _ ih => exact .noComma ih

theorem Spells.after {Item : Type} (items : List Item) {ws : List Written} {ks : List TokenKind}
    (h : Spells ws ks) : Spells (after items :: ws) (.mark (.symbol .comma) :: ks) := by
  cases items with
  | nil => exact .comma h
  | cons item rest => exact .token h

theorem itemsWritten_eq (eol : List Written) (items : List Expr) :
    itemsWritten eol items = joined (·.written eol) items := by
  induction items with
  | nil => rfl
  | cons item rest ih => rw [itemsWritten, ih, joined]

theorem fieldsWritten_eq (eol : List Written) (fields : List (Ident × Expr)) :
    fieldsWritten eol fields =
      joined (fun f => .key f.1.name :: symbol .colon :: f.2.written eol) fields := by
  induction fields with
  | nil => rfl
  | cons field rest ih => rw [fieldsWritten, ih, joined, List.cons_append, List.cons_append]

theorem argsWritten_eq (eol : List Written) (args : List (Option Ident × Expr)) :
    argsWritten eol args = joined (fun a => argumentName a.1 ++ a.2.written eol) args := by
  induction args with
  | nil => rfl
  | cons arg rest ih => rw [argsWritten, ih, joined, List.append_assoc]

end Metagen.Script
