import Metagen.Json.Reading

/-! Options of a run, and reading them from JSON: an object with some of the options, each at most
once and no other fields, or a list of the first options in order. -/

namespace Metagen

structure Options where
  /-- The directory that names of generated files are relative to. -/
  outputDir : String := "."
  /-- Paths of the sources, in order. -/
  sources : List String := []
  /-- Where to write the scripts of all directives. -/
  dumpPath : Option String := none
  /-- Generated files start with a line that says where they come from. -/
  receipt : Bool := true
  /-- Diagnostics are shown with styles. -/
  color : Bool := false
  deriving DecidableEq, Repr

namespace Options

open Json Reader

/-- The options of a run that asks for nothing else. -/
def defaults : Options := {}

/-- Options by name, in order, with readers of their values. -/
def fields : List (String × Reader (Options → Options)) :=
  [("output_dir", do
      let outputDir ← string
      return ({ · with outputDir })),
    ("sources", do
      let sources ← list string
      return ({ · with sources })),
    ("dump_path", do
      let dumpPath ← nullable string
      return ({ · with dumpPath })),
    ("receipt", do
      let receipt ← bool
      return ({ · with receipt })),
    ("color", do
      let color ← bool
      return ({ · with color }))]

/-- Read a field of an object: its name, and how it changes options. -/
def field : Reader (String × (Options → Options)) := do
  let name ← string
  token ":"
  match fields.lookup name with
  | some value => return (name, ← value)
  | none => failure

def object : Reader Options := do
  token "\x7b"
  let changes ← sequence field "\x7d"
  if (changes.map (·.1)).Nodup then return changes.foldl (fun o change => change.2 o) defaults
  else failure

/-- Read the rest of a list of options whose next ones are given, after at least one. -/
def listFrom (o : Options) : List (Reader (Options → Options)) → Reader Options
  | [] => token "]" *> pure o
  | value :: rest =>
    (token "]" *> pure o) <|> (do
      token ","
      let change ← value
      listFrom (change o) rest)

def positional : Reader Options := do
  token "["
  match fields.map (·.2) with
  | [] => token "]" *> pure defaults
  | first :: rest =>
    (token "]" *> pure defaults) <|> (do
      let change ← first
      listFrom (change defaults) rest)

def ofJson? (text : String) : Option Options :=
  ((object <|> positional) <* finish).run' text.toList

end Options

end Metagen
