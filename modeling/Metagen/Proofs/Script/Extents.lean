import Metagen.Proofs.Script.Order
import Metagen.Proofs.Script.Parts

/-! How ranges nest in a tree: a node covers the names and nodes inside it, at any depth, and those
directly inside it stand one after another. -/

namespace Metagen

/-- The range starts no later than it ends. -/
def Span.Ordered (s : Span) : Prop := s.start ≤ s.stop

/-- The range starts no later and ends no earlier than the other one. -/
structure Span.Covers (outer inner : Span) : Prop where
  start : outer.start ≤ inner.start
  stop : inner.stop ≤ outer.stop

theorem Span.Covers.trans {a b c : Span} (h : a.Covers b) (h' : b.Covers c) : a.Covers c :=
  ⟨h.start.trans h'.start, h'.stop.trans h.stop⟩

theorem Span.covers_merge_left (a b : Span) : (a.merge b).Covers a :=
  ⟨a.start.earlier_le_left b.start, a.stop.le_later_left b.stop⟩

theorem Span.covers_merge_right (a b : Span) : (a.merge b).Covers b :=
  ⟨a.start.earlier_le_right b.start, a.stop.le_later_right b.stop⟩

namespace Script

/-- What stands directly inside a node: a name or another node. -/
inductive Child where
  | name (name : Ident)
  | node (node : Node)

namespace Child

abbrev expr (e : Expr) : Child := node (.expr e)

abbrev block (b : Block) : Child := node (.block b)

abbrev stmt (s : Stmt) : Child := node (.stmt s)

/-- The range of a name or a node. -/
def span : Child → Span
  | name n => n.span
  | node n => n.span

end Child

def nameChildren (name? : Option Ident) : List Child := name?.toList.map .name

def argumentChildren (arg : Option Ident × Expr) : List Child := nameChildren arg.1 ++ [.expr arg.2]

/-- A key of a record and its value. -/
def fieldChildren (field : Ident × Expr) : List Child := [.name field.1, .expr field.2]

def holeChildren (parts : List (Part Expr)) : List Child := (parts.filterMap Part.hole?).map .expr

/-- Names and nodes directly inside an expression, in the order they are written in. -/
def Expr.children : Expr → List Child
  | interpolation _ parts => holeChildren parts
  | list _ items => items.map .expr
  | record _ fields => fields.flatMap fieldChildren
  | call _ callee args => .expr callee :: args.flatMap argumentChildren
  | field _ object key => [.expr object, .name key]
  | index _ object position => [.expr object, .expr position]
  | binary _ _ left right => [.expr left, .expr right]
  | unary _ _ operand => [.expr operand]
  | lambda f => [.node (.function f)]
  | paren _ inner => [.expr inner]
  | int .. | float .. | text .. | bool .. | nil _ | name .. => []

/-- Names and nodes directly inside a statement, in the order they are written in. -/
def Stmt.children : Stmt → List Child
  | bind _ name value => [.name name, .expr value]
  | assign _ target value => [.expr target, .expr value]
  | function f => [.node (.function f)]
  | branch b => [.node (.branch b)]
  | forEach _ item index iterable body =>
    .name item :: nameChildren index ++ [.expr iterable, .block body]
  | whileTrue _ condition body => [.expr condition, .block body]
  | result _ value => value.toList.map .expr
  | check _ condition message => .expr condition :: message.toList.map .expr
  | globals _ names => names.map .name
  | expr e => [.expr e]
  | leave _ | next _ => []

namespace Node

/-- Names and nodes directly inside a node, in the order they are written in. -/
def children : Node → List Child
  | expr e => e.children
  | stmt s => s.children
  | block b => b.stmts.map .stmt
  | branch (.mk _ condition body otherwise) =>
    [.expr condition, .block body] ++ otherwise.parts.map .node
  | function f => nameChildren f.name ++ f.params.map .name ++ [.block f.body]

/-- A name or a node stands inside a node, at any depth. -/
def HoldsChild (whole : Node) (child : Child) : Prop :=
  ∃ part : Node, part.Inside whole ∧ child ∈ part.children

variable {part node : Node} {child : Child}

/-- Each node directly inside another one is among its children, which also are names. -/
theorem node_mem_children (h : part ∈ node.parts) : .node part ∈ node.children := by
  cases node with
  | expr e =>
      cases e with
      | record _ fields =>
          obtain ⟨field, hField, rfl⟩ := List.mem_map.1 h
          exact List.mem_flatMap.2 ⟨field, hField, by simp [fieldChildren]⟩
      | call _ callee args =>
          rcases List.mem_cons.1 h with rfl | hLater
          · exact List.mem_cons_self
          · obtain ⟨arg, hArg, rfl⟩ := List.mem_map.1 hLater
            refine List.mem_cons_of_mem _ (List.mem_flatMap.2 ⟨arg, hArg, ?_⟩)
            simp [argumentChildren]
      | _ => simp_all [parts, children, Expr.parts, Expr.children, holeChildren]
  | stmt s => cases s <;> simp_all [parts, children, Stmt.parts, Stmt.children]
  | block b => simp_all [parts, children]
  | branch b =>
      obtain ⟨span, condition, body, otherwise⟩ := b
      simp_all [parts, children]
  | function f => simp_all [parts, children]

/-- The node covers what is directly inside it, which stands in order. -/
structure Frames (node : Node) : Prop where
  ordered : node.span.Ordered
  each : ∀ child ∈ node.children, child.span.Ordered
  covers : ∀ child ∈ node.children, node.span.Covers child.span
  apart : node.children.Pairwise fun child later => child.span.stop < later.span.start

/-- All nodes of a tree cover what is directly inside them. -/
def Nests (node : Node) : Prop := ∀ part : Node, part.Inside node → part.Frames

theorem Nests.frames (h : node.Nests) : node.Frames := h node (.refl node)

/-- A node nests if its frame does and all nodes among its children do. -/
theorem Nests.of_children (h : node.Frames)
    (hChildren : ∀ inner : Node, .node inner ∈ node.children → inner.Nests) : node.Nests := by
  intro part hInside
  rcases Relation.ReflTransGen.cases_head hInside with rfl | ⟨next, hNext, hRest⟩
  · exact h
  · exact hChildren next (node_mem_children hNext) part hRest

/-- A node covers every node inside it. -/
theorem Nests.covers (h : node.Nests) (hPart : part.Inside node) :
    node.span.Covers part.span := by
  induction hPart with
  | refl => exact ⟨le_refl _, le_refl _⟩
  | tail hOuter hInner ih =>
      exact ih.trans ((h _ hOuter).covers _ (node_mem_children hInner))

/-- The ranges inside a node, at any depth, nest. -/
structure RangesNest (node : Node) : Prop where
  ordered : node.span.Ordered
  inside : ∀ child, node.HoldsChild child → child.span.Ordered
  covers : ∀ child, node.HoldsChild child → node.span.Covers child.span
  /-- What is directly inside ends before what comes next there starts. -/
  apart : node.children.Pairwise fun child later => child.span.stop < later.span.start

/-- If every node of a tree covers what is directly inside it, then the ranges inside it nest at any
depth. -/
theorem Nests.rangesNest (h : node.Nests) : node.RangesNest where
  ordered := h.frames.ordered
  inside := by
    rintro child ⟨part, hPart, hChild⟩
    exact (h part hPart).each child hChild
  covers := by
    rintro child ⟨part, hPart, hChild⟩
    exact (h.covers hPart).trans ((h part hPart).covers child hChild)
  apart := h.frames.apart

end Node

/-- A name or a node covers what is inside it. -/
def Child.Nests : Child → Prop
  | name n => n.span.Ordered
  | node n => n.Nests

theorem Child.Nests.ordered {child : Child} (h : child.Nests) : child.span.Ordered := by
  cases child with
  | name n => exact h
  | node n => exact (Node.Nests.frames h).ordered

/-- The ranges of a program nest, in each of its nodes and at its top level. -/
structure Program.RangesNest (p : Program) : Prop where
  nodes : ∀ s ∈ p.stmts, ∀ node : Node, node.Inside (.stmt s) → node.RangesNest
  ordered : p.span.Ordered
  covers : ∀ s ∈ p.stmts, p.span.Covers s.span
  apart : p.stmts.Pairwise fun s later => s.span.stop < later.span.start

end Script

end Metagen
