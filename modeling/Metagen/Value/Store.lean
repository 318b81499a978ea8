import Metagen.Bindings
import Metagen.Script.Tree
import Metagen.Value.Builtin

/-! Values of scripts, and the store that holds what can change. Lists and records are cells: two
names may stand for the same cell, and then both see what is done to it. Functions are cells too,
because two functions are equal only if one evaluation made them. Cells are never freed, so that a
cell number keeps its meaning for a whole run. -/

namespace Metagen

open Script

/-- A value. Lists, records and functions are numbers of cells. -/
inductive Value where
  | nil
  | bool (b : Bool)
  | int (n : Int64)
  | float (x : Float)
  | text (s : String)
  | list (cell : Nat)
  | record (cell : Nat)
  | function (cell : Nat)
  | builtin (b : Builtin)
  /-- The handle by which scripts generate text. -/
  | generator
  deriving Inhabited

namespace Value

/-- No container nests this deep unless it contains itself. -/
def maxNesting : Nat := Nat.pow 2 62

/-- How the type of a value is named in messages. -/
def typeName : Value → String
  | nil => "nil"
  | bool _ => "bool"
  | int _ => "int"
  | float _ => "float"
  | text _ => "string"
  | list _ => "list"
  | record _ => "record"
  | function _ | builtin _ => "function"
  | generator => "Meta"

end Value

/-- Scopes that are open at some point of a script: the names of the directive, and inside them
blocks and calls, the innermost first. Both are numbers of cells, so that everything that was
written in a scope sees the same bindings. -/
structure Env where
  namespaceCell : Nat
  inner : List Nat := []
  deriving DecidableEq, Repr

/-- A function with the scopes it was written in. -/
structure Closure where
  function : Function
  env : Env
  /-- The number of the script it was written in. -/
  unit : Nat

/-- The names of a directive, and which of them are bound here wherever they are bound. -/
structure Namespace where
  bindings : Bindings Value := {}
  globals : List String := []
  deriving Inhabited

/-- All cells, and the lines that scripts have logged. -/
structure Store where
  lists : Array (Array Value) := #[]
  records : Array (Bindings Value) := #[]
  functions : Array Closure := #[]
  scopes : Array (Bindings Value) := #[]
  namespaces : Array Namespace := #[]
  log : Array String := #[]
  deriving Inhabited

namespace Store

def listAt (s : Store) (cell : Nat) : Array Value := s.lists[cell]?.getD #[]

def recordAt (s : Store) (cell : Nat) : Bindings Value := s.records[cell]?.getD {}

def scopeAt (s : Store) (cell : Nat) : Bindings Value := s.scopes[cell]?.getD {}

def namespaceAt (s : Store) (cell : Nat) : Namespace := s.namespaces[cell]?.getD {}

def functionLabel (s : Store) (cell : Nat) : String :=
  (s.functions[cell]?.map (·.function.label)).getD "<lambda>"

def newList (s : Store) (items : Array Value) : Value × Store :=
  (.list s.lists.size, { s with lists := s.lists.push items })

def newRecord (s : Store) (fields : Bindings Value) : Value × Store :=
  (.record s.records.size, { s with records := s.records.push fields })

def newFunction (s : Store) (closure : Closure) : Value × Store :=
  (.function s.functions.size, { s with functions := s.functions.push closure })

def newScope (s : Store) : Nat × Store := (s.scopes.size, { s with scopes := s.scopes.push {} })

def newNamespace (s : Store) : Nat × Store :=
  (s.namespaces.size, { s with namespaces := s.namespaces.push {} })

def modifyList (s : Store) (cell : Nat) (change : Array Value → Array Value) : Store :=
  { s with lists := s.lists.modify cell change }

def modifyRecord (s : Store) (cell : Nat) (change : Bindings Value → Bindings Value) : Store :=
  { s with records := s.records.modify cell change }

def modifyScope (s : Store) (cell : Nat) (change : Bindings Value → Bindings Value) : Store :=
  { s with scopes := s.scopes.modify cell change }

def modifyNamespace (s : Store) (cell : Nat) (change : Namespace → Namespace) : Store :=
  { s with namespaces := s.namespaces.modify cell change }

def logLine (s : Store) (line : String) : Store := { s with log := s.log.push line }

/-- There are fewer lists and records than this. -/
def nestingBound (s : Store) : Nat := s.lists.size + s.records.size + 1

end Store

end Metagen
