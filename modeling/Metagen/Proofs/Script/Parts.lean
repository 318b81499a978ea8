import Metagen.Script.Tree
import Mathlib.Logic.Relation

/-! The parts of a script: every node of its tree with the nodes directly inside it. -/

namespace Metagen.Script

inductive Node where
  | expr (e : Expr)
  | stmt (s : Stmt)
  | block (b : Block)
  | branch (b : Branch)
  | function (f : Function)

/-- The expression in a hole of an interpolated string. -/
def Part.hole? {Hole : Type} : Part Hole → Option Hole
  | text _ => none
  | hole e => some e

def Otherwise.parts : Otherwise → List Node
  | nothing => []
  | block body => [.block body]
  | branch next => [.branch next]

def Expr.parts : Expr → List Node
  | interpolation _ parts => (parts.filterMap Part.hole?).map .expr
  | list _ items => items.map .expr
  | record _ fields => fields.map fun field => .expr field.2
  | call _ callee args => .expr callee :: args.map fun arg => .expr arg.2
  | field _ object _ => [.expr object]
  | index _ object position => [.expr object, .expr position]
  | binary _ _ left right => [.expr left, .expr right]
  | unary _ _ operand => [.expr operand]
  | lambda f => [.function f]
  | paren _ inner => [.expr inner]
  | int .. | float .. | text .. | bool .. | nil _ | name .. => []

def Stmt.parts : Stmt → List Node
  | bind _ _ value => [.expr value]
  | assign _ target value => [.expr target, .expr value]
  | function f => [.function f]
  | branch b => [.branch b]
  | forEach _ _ _ iterable body => [.expr iterable, .block body]
  | whileTrue _ condition body => [.expr condition, .block body]
  | result _ value => value.toList.map .expr
  | check _ condition message => .expr condition :: message.toList.map .expr
  | expr e => [.expr e]
  | leave _ | next _ | globals .. => []

namespace Node

def span : Node → Span
  | expr e => e.span
  | stmt s => s.span
  | block b => b.span
  | branch b => b.span
  | function f => f.span

def parts : Node → List Node
  | expr e => e.parts
  | stmt s => s.parts
  | block b => b.stmts.map stmt
  | branch (.mk _ condition body otherwise) => [expr condition, block body] ++ otherwise.parts
  | function f => [block f.body]

/-- One node is part of another one, at any depth. -/
def Inside (part whole : Node) : Prop :=
  Relation.ReflTransGen (fun outer inner => inner ∈ outer.parts) whole part

variable {part whole inner : Node}

theorem Inside.refl (node : Node) : node.Inside node := Relation.ReflTransGen.refl

theorem Inside.deeper (h : part.Inside whole) (hInner : inner ∈ part.parts) :
    inner.Inside whole := h.tail hInner

theorem Inside.trans (h : inner.Inside part) (h' : part.Inside whole) : inner.Inside whole :=
  Relation.ReflTransGen.trans h' h

end Node

/-- The statement is a list of globals. -/
def Stmt.isGlobals : Stmt → Bool
  | globals .. => true
  | _ => false

/-- The node is part of the program, and not of a list of globals at its top level. -/
def Program.HasNode (p : Program) (node : Node) : Prop :=
  ∃ s ∈ p.stmts, s.isGlobals = false ∧ node.Inside (.stmt s)

theorem Program.HasNode.deeper {p : Program} {outer inner : Node} (h : p.HasNode outer)
    (hInner : inner.Inside outer) : p.HasNode inner := by
  obtain ⟨s, hMem, hKind, hOuter⟩ := h
  exact ⟨s, hMem, hKind, hInner.trans hOuter⟩

end Metagen.Script
