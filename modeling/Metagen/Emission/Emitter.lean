import Metagen.Emission.Error
import Metagen.Emission.Scope
import Metagen.Text.Columns
import Metagen.Text.Lines

/-! The emitter: generated text as it grows line by line. An emitter serves all directives of a run;
each starts it anew and ends with the text of its file. Only the ledger of who overloads which macro
outlives a directive. -/

namespace Metagen.Emission

open Text

/-- Where generated text goes, and the line that names the file. -/
structure Target where
  path : String
  /-- The file with the line that names the target. -/
  source : String
  line : Nat
  deriving DecidableEq, Repr

structure Generated where
  path : String
  text : String
  deriving DecidableEq, Repr

/-- A text that is written before the next line, if there is one before the section ends. -/
structure Section where
  text : String
  indent : Nat
  flushed : Bool := false
  deriving DecidableEq, Repr

/-- What the overloads of one macro have in common. -/
structure OverloadGroup where
  params : List String
  keys : List String
  deriving DecidableEq, Repr

/-- Parameters that do not select the overload. -/
def OverloadGroup.rest (group : OverloadGroup) : List String :=
  group.params.filter fun p => !group.keys.contains p

/-- What the names of all overloads start with. -/
def overloadPrefix : String := "__MACRO_OVERLOAD__"

def variantName (name : String) (values : List String) : String :=
  overloadPrefix ++ name ++ "__" ++ "__".intercalate values

/-- The definition that turns a call of an overloaded macro into a call of the selected overload. -/
def dispatcher (name : String) (group : OverloadGroup) : String :=
  let call := if group.rest.isEmpty then "" else "(" ++ ", ".intercalate group.rest ++ ")"
  "#define " ++ name ++ "(" ++ ", ".intercalate group.params ++ ") " ++ overloadPrefix ++ name
    ++ "__##" ++ "##__##".intercalate group.keys ++ call

structure Emitter where
  output : String := ""
  /-- Levels of indentation. -/
  indent : Nat := 0
  /-- Lines are continued, because they belong to one definition. -/
  inMacro : Bool := false
  /-- Macros overloaded since the last start, in order. -/
  overloads : List (String × OverloadGroup) := []
  /-- The directive that overloads each macro. -/
  owners : List (String × String) := []
  /-- Open sections, the outermost first. -/
  sections : List Section := []
  target : Option Target := none
  /-- The directive that is running. -/
  owner : String := ""
  /-- Finished files start with a line that says where they come from. -/
  receipt : Bool := true
  deriving DecidableEq, Repr

namespace Emitter

def reset (e : Emitter) (owner : String) (target : Option Target) : Emitter :=
  { owners := e.owners, receipt := e.receipt, owner, target }

def indentWidth : Nat := 4

def layOut (inMacro : Bool) (indent : Nat) (line : String) : String :=
  trimEnd (spaces (indent * indentWidth) ++ line ++ if inMacro then " \\" else "")

/-- Write one line at a level, without regard to sections. -/
def write (e : Emitter) (indent : Nat) (line : String) : Emitter :=
  { e with output := e.output ++ layOut e.inMacro indent line ++ "\n" }

/-- The lines of a fragment, which is indented on its own. -/
def fragmentLines (text : String) : List String := dedentLines none (literalLines text)

/-- Write the texts of sections that wait, the outermost first. -/
def flushSections (e : Emitter) : Emitter :=
  let waiting := e.sections.filter fun s => !s.flushed
  let e := { e with sections := e.sections.map ({ · with flushed := true }) }
  waiting.foldl (fun e s => (fragmentLines s.text).foldl (·.write s.indent ·) e) e

def pushLine (e : Emitter) (line : String) : Emitter :=
  let e := e.flushSections
  e.write e.indent line

def line (e : Emitter) (text : String) : Emitter := (fragmentLines text).foldl pushLine e

def lines (e : Emitter) (texts : List String) : Emitter := texts.foldl line e

def blank (e : Emitter) : Emitter := e.pushLine ""

def lineIfAny (e : Emitter) : Option String → Emitter
  | some text => e.line text
  | none => e

def enter (e : Emitter) (scope : Scope) : ExitSide × Emitter :=
  let inferred := infer scope.header
  let opening := scope.opening <|> inferred.opening
  let closing := scope.closing <|> inferred.closing
  let indented := scope.indented.getD inferred.indented
  let e := { e with inMacro := e.inMacro || inferred.definesMacro }
  let e := e.lineIfAny scope.header
  let e := if indented then { e with indent := e.indent + 1 } else e
  let e := e.lineIfAny opening
  (⟨closing, indented, inferred.definesMacro⟩, { e with indent := e.indent + 1 })

/-- Leave a scope. The end of a definition is followed by an empty line, which ends its
continuation. -/
def exit (e : Emitter) (side : ExitSide) : Emitter :=
  let e := { e with indent := e.indent - 1 }
  let e := e.lineIfAny side.closing
  let e := if side.indented then { e with indent := e.indent - 1 } else e
  if side.definesMacro then { e with inMacro := false }.blank else e

def beginSection (e : Emitter) (text : String) : Emitter :=
  { e with sections := e.sections ++ [{ text, indent := e.indent }] }

def endSection (e : Emitter) : Emitter := { e with sections := e.sections.dropLast }

def receiptLine (target : Target) (time : String) : String :=
  "// [" ++ target.source ++ ":" ++ toString target.line ++ "] " ++ time

/-- End a directive at a time. Its file holds the receipt, the dispatchers of the macros it
overloads, and its own text; without a target the text is dropped. -/
def finishAt (e : Emitter) (time : String) : Option Generated × Emitter :=
  let ended := { e with
    output := "", indent := 0, inMacro := false, sections := [], overloads := [], target := none }
  match e.target with
  | none => (none, ended)
  | some target =>
    let head := if e.receipt then ended.write 0 (receiptLine target time) else ended
    let head := e.overloads.foldl (fun h (name, group) => h.line (dispatcher name group)) head
    (some ⟨target.path, head.output ++ e.output⟩, ended)

end Emitter

end Metagen.Emission
