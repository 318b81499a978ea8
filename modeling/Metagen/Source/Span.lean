/-! Positions in a text. Lines and columns count from one, and columns count characters. -/

namespace Metagen

structure Position where
  line : Nat
  column : Nat
  deriving DecidableEq, Repr

def Position.before (a b : Position) : Bool :=
  a.line < b.line || (a.line == b.line && a.column < b.column)

def Position.earlier (a b : Position) : Position := if b.before a then b else a

def Position.later (a b : Position) : Position := if a.before b then b else a

/-- A range of a text from its first to its last character, both included. -/
structure Span where
  start : Position
  stop : Position
  deriving DecidableEq, Repr

def Span.point (p : Position) : Span := ⟨p, p⟩

def Position.origin : Position := ⟨1, 1⟩

def Span.merge (a b : Span) : Span := ⟨a.start.earlier b.start, a.stop.later b.stop⟩

def Span.render (s : Span) : String := toString s.start.line ++ ":" ++ toString s.start.column

end Metagen
