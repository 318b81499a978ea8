import Metagen.Proofs.Script.Parts

/-! What trees are compared by and how deep they are: a tree without the ranges it was written in,
and how many expressions stand inside each other, one in the brackets, the holes or the function
body of the next. -/

namespace Metagen.Script

/-- The range of everything in a bare tree. -/
def nowhere : Span := .point .origin

def Ident.bare (n : Ident) : Ident := ⟨n.name, nowhere⟩

mutual

def Expr.bare : Expr → Expr
  | .int _ n => .int nowhere n
  | .float _ x => .float nowhere x
  | .text _ s => .text nowhere s
  | .interpolation _ parts => .interpolation nowhere (partsBare parts)
  | .bool _ b => .bool nowhere b
  | .nil _ => .nil nowhere
  | .list _ items => .list nowhere (itemsBare items)
  | .record _ fields => .record nowhere (fieldsBare fields)
  | .name _ s => .name nowhere s
  | .call _ callee args => .call nowhere callee.bare (argsBare args)
  | .field _ object field => .field nowhere object.bare field.bare
  | .index _ object index => .index nowhere object.bare index.bare
  | .binary _ op left right => .binary nowhere op left.bare right.bare
  | .unary _ op operand => .unary nowhere op operand.bare
  | .lambda f => .lambda f.bare
  | .paren _ inner => .paren nowhere inner.bare

def partsBare : List (Part Expr) → List (Part Expr)
  | [] => []
  | .text value :: rest => .text value :: partsBare rest
  | .hole e :: rest => .hole e.bare :: partsBare rest

def itemsBare : List Expr → List Expr
  | [] => []
  | item :: rest => item.bare :: itemsBare rest

def fieldsBare : List (Ident × Expr) → List (Ident × Expr)
  | [] => []
  | (key, value) :: rest => (key.bare, value.bare) :: fieldsBare rest

def argsBare : List (Option Ident × Expr) → List (Option Ident × Expr)
  | [] => []
  | (name, value) :: rest => (name.map Ident.bare, value.bare) :: argsBare rest

def Stmt.bare : Stmt → Stmt
  | .bind _ n value => .bind nowhere n.bare value.bare
  | .assign _ target value => .assign nowhere target.bare value.bare
  | .function f => .function f.bare
  | .branch b => .branch b.bare
  | .forEach _ item index iterable body =>
    .forEach nowhere item.bare (index.map Ident.bare) iterable.bare body.bare
  | .whileTrue _ condition body => .whileTrue nowhere condition.bare body.bare
  | .leave _ => .leave nowhere
  | .next _ => .next nowhere
  | .result _ none => .result nowhere none
  | .result _ (some e) => .result nowhere (some e.bare)
  | .check _ condition none => .check nowhere condition.bare none
  | .check _ condition (some e) => .check nowhere condition.bare (some e.bare)
  | .globals _ names => .globals nowhere (names.map Ident.bare)
  | .expr e => .expr e.bare

def stmtsBare : List Stmt → List Stmt
  | [] => []
  | s :: rest => s.bare :: stmtsBare rest

def Block.bare : Block → Block
  | .mk _ stmts => .mk nowhere (stmtsBare stmts)

def Function.bare : Function → Function
  | .mk _ name params body => .mk nowhere (name.map Ident.bare) (params.map Ident.bare) body.bare

def Branch.bare : Branch → Branch
  | .mk _ condition body otherwise => .mk nowhere condition.bare body.bare otherwise.bare

def Otherwise.bare : Otherwise → Otherwise
  | .nothing => .nothing
  | .block body => .block body.bare
  | .branch next => .branch next.bare

end

def bareArg (arg : Option Ident × Expr) : Option Ident × Expr :=
  (arg.1.map Ident.bare, arg.2.bare)

/-- A key and its value without the ranges they were written in. -/
def bareField (field : Ident × Expr) : Ident × Expr := (field.1.bare, field.2.bare)

def Program.bare (p : Program) : Program := ⟨nowhere, stmtsBare p.stmts⟩

theorem Stmt.bare_result (span : Span) (value : Option Expr) :
    (Stmt.result span value).bare = .result nowhere (value.map Expr.bare) := by
  cases value <;> rw [Stmt.bare] <;> rfl

theorem Stmt.bare_check (span : Span) (condition : Expr) (message : Option Expr) :
    (Stmt.check span condition message).bare =
      .check nowhere condition.bare (message.map Expr.bare) := by
  cases message <;> rw [Stmt.bare] <;> rfl

@[simp]
theorem itemsBare_eq (items : List Expr) : itemsBare items = items.map Expr.bare := by
  induction items with
  | nil => rfl
  | cons item rest ih => rw [itemsBare, ih, List.map_cons]

@[simp]
theorem fieldsBare_eq (fields : List (Ident × Expr)) :
    fieldsBare fields = fields.map bareField := by
  induction fields with
  | nil => rfl
  | cons field rest ih => rw [fieldsBare, ih, List.map_cons, bareField]

@[simp]
theorem argsBare_eq (args : List (Option Ident × Expr)) :
    argsBare args = args.map bareArg := by
  induction args with
  | nil => rfl
  | cons arg rest ih => rw [argsBare, ih, List.map_cons, bareArg]

@[simp]
theorem stmtsBare_eq (stmts : List Stmt) : stmtsBare stmts = stmts.map Stmt.bare := by
  induction stmts with
  | nil => rfl
  | cons s rest ih => rw [stmtsBare, ih, List.map_cons]

/-- Parts of a string lose their ranges one by one. -/
theorem partsBare_append (parts more : List (Part Expr)) :
    partsBare (parts ++ more) = partsBare parts ++ partsBare more := by
  induction parts with
  | nil => rfl
  | cons part rest ih =>
      cases part with
      | text value => rw [List.cons_append, partsBare, partsBare, ih, List.cons_append]
      | hole e => rw [List.cons_append, partsBare, partsBare, ih, List.cons_append]

mutual

/-- How many expressions stand inside each other in the brackets, holes and function bodies of an
expression. Operands, and what fields, calls and indexes come after, stand where it stands. -/
def Expr.nesting : Expr → Nat
  | .interpolation _ parts => holesNesting parts
  | .list _ items => itemsNesting items
  | .record _ fields => fieldsNesting fields
  | .call _ callee args => max callee.nesting (argsNesting args)
  | .field _ object _ => object.nesting
  | .index _ object index => max object.nesting (index.nesting + 1)
  | .binary _ _ left right => max left.nesting right.nesting
  | .unary _ _ operand => operand.nesting
  | .lambda f => f.nesting
  | .paren _ inner => inner.nesting + 1
  | .int .. | .float .. | .text .. | .bool .. | .nil _ | .name .. => 0

def holesNesting : List (Part Expr) → Nat
  | [] => 0
  | .text _ :: rest => holesNesting rest
  | .hole e :: rest => max (e.nesting + 1) (holesNesting rest)

def itemsNesting : List Expr → Nat
  | [] => 0
  | item :: rest => max (item.nesting + 1) (itemsNesting rest)

def fieldsNesting : List (Ident × Expr) → Nat
  | [] => 0
  | (_, value) :: rest => max (value.nesting + 1) (fieldsNesting rest)

def argsNesting : List (Option Ident × Expr) → Nat
  | [] => 0
  | (_, value) :: rest => max (value.nesting + 1) (argsNesting rest)

/-- How many expressions stand inside each other in a statement. A target of an assignment is no
expression of its own. -/
def Stmt.nesting : Stmt → Nat
  | .bind _ _ value => value.nesting + 1
  | .assign _ target value => max target.nesting (value.nesting + 1)
  | .function f => f.nesting
  | .branch b => b.nesting
  | .forEach _ _ _ iterable body => max (iterable.nesting + 1) body.nesting
  | .whileTrue _ condition body => max (condition.nesting + 1) body.nesting
  | .leave _ | .next _ | .globals .. | .result _ none => 0
  | .result _ (some e) => e.nesting + 1
  | .check _ condition none => condition.nesting + 1
  | .check _ condition (some e) => max (condition.nesting + 1) (e.nesting + 1)
  | .expr e => e.nesting + 1

def stmtsNesting : List Stmt → Nat
  | [] => 0
  | s :: rest => max s.nesting (stmtsNesting rest)

def Block.nesting : Block → Nat
  | .mk _ stmts => stmtsNesting stmts

def Function.nesting : Function → Nat
  | .mk _ _ _ body => body.nesting

def Branch.nesting : Branch → Nat
  | .mk _ condition body otherwise =>
    max (max (condition.nesting + 1) body.nesting) otherwise.nesting

def Otherwise.nesting : Otherwise → Nat
  | .nothing => 0
  | .block body => body.nesting
  | .branch next => next.nesting

end

/-- How many expressions stand inside each other in a script. -/
def Program.nesting (p : Program) : Nat := stmtsNesting p.stmts

/-- How many expressions stand inside each other in a node, apart from the node itself. -/
def Node.nesting : Node → Nat
  | expr e => e.nesting
  | stmt s => s.nesting
  | block b => b.nesting
  | branch b => b.nesting
  | function f => f.nesting

theorem nesting_lt_of_item {item : Expr} {items : List Expr} (h : item ∈ items) :
    item.nesting < itemsNesting items := by
  induction h with
  | head rest => exact Nat.le_max_left _ _
  | tail other _ ih => exact Nat.lt_of_lt_of_le ih (Nat.le_max_right _ _)

theorem nesting_lt_of_field {field : Ident × Expr} {fields : List (Ident × Expr)}
    (h : field ∈ fields) : field.2.nesting < fieldsNesting fields := by
  induction h with
  | head rest => exact Nat.le_max_left _ _
  | tail other _ ih => exact Nat.lt_of_lt_of_le ih (Nat.le_max_right _ _)

theorem nesting_lt_of_arg {arg : Option Ident × Expr} {args : List (Option Ident × Expr)}
    (h : arg ∈ args) : arg.2.nesting < argsNesting args := by
  induction h with
  | head rest => exact Nat.le_max_left _ _
  | tail other _ ih => exact Nat.lt_of_lt_of_le ih (Nat.le_max_right _ _)

end Metagen.Script
