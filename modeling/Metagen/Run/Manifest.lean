import Metagen.Json.Writing
import Metagen.Numeral.Shortest

/-! The manifest of a run: what each directive generated and defined. -/

namespace Metagen

structure ManifestEntry where
  source : String
  line : Nat
  /-- The generated file. -/
  output : Option String := none
  exports : List String := []
  /-- How long it ran, in nanoseconds. -/
  elapsed : Nat := 0
  /-- Digest of the generated text. -/
  sha256 : Option String := none
  deriving DecidableEq, Repr

namespace Manifest

open Json

/-- Nanoseconds as milliseconds. -/
def milliseconds (nanoseconds : Nat) : String :=
  Numeral.floatText (Numeral.withSign false (Numeral.bitsOfFraction nanoseconds 1000000))

def optionalField (name : String) : Option String → List (String × String)
  | some value => [(name, stringText value)]
  | none => []

def entryText (e : ManifestEntry) : String :=
  objectText 4 <| [("source", stringText e.source), ("line", toString e.line)]
    ++ optionalField "output" e.output
    ++ [("exports", listText 6 (e.exports.map stringText)), ("elapsed_ms", milliseconds e.elapsed)]
    ++ optionalField "sha256" e.sha256

def render (timestamp : String) (entries : List ManifestEntry) : String :=
  objectText 0 [("generated_at", stringText timestamp),
    ("directives", listText 2 (entries.map entryText))]

end Manifest

end Metagen
