import Metagen.Directive.Header
import Metagen.Text.Lines

/-! Finding the directives of a source. Lines are read one by one. Outside directives only lines
that name a generated file matter, and only the last of those right above a header; then come the
lines of the header, and then the script, up to the end of its comment or of the source. -/

namespace Metagen

open Text

/-- Scanning may fail, and it gives warnings on its way. -/
abbrev Scan := EStateM Diagnostic (Array String)

namespace Scan

/-- A line that names a generated file, and whether it is commented out. -/
structure Pending where
  target : Include
  commented : Bool
  deriving DecidableEq, Repr

/-- A directive whose header is being read. -/
structure OpenHeader where
  headerLine : Nat
  include? : Option Include
  decls : List Declaration := []

/-- A directive whose script is being read. -/
structure OpenBody extends OpenHeader where
  bodyLine : Nat
  /-- The lines so far, the last first. -/
  body : List String := []

/-- Where in a source the next line is. -/
inductive Position where
  /-- Outside directives, perhaps below a line that names a generated file. -/
  | outside (pending : Option Pending)
  | header (header : OpenHeader)
  | body (body : OpenBody)

/-- The mark of comments in scripts, which do not count towards the indentation of a script. -/
def bodyComment : String := "#"

/-- Warn of a commented line that names a generated file, when no directive follows it. -/
def warnUnused (file : SourceFile) : Option Pending → Scan Unit
  | some p =>
    if p.commented then
      modify (·.push (file.path ++ ":" ++ toString p.target.line
        ++ ": include line is not followed by a meta-directive"))
    else pure ()
  | none => pure ()

def addDeclarations (file : SourceFile) (line : Nat) (remainder : String) (h : OpenHeader) :
    Scan OpenHeader :=
  match Header.parse remainder with
  | .ok decls =>
    pure { h with decls := h.decls ++ decls.map fun (kind, name) => ⟨kind, name, line⟩ }
  | .error fault => throw (fault.diagnostic file [line])

/-- Refuse a header that declares a name twice in one way. -/
def checkHeader (file : SourceFile) (h : OpenHeader) : Scan Unit :=
  match Header.repeated? h.decls with
  | some (fault, lines) => throw (fault.diagnostic file lines)
  | none => pure ()

/-- A directive as it was read, with the lines of its script. -/
def close (file : SourceFile) (h : OpenHeader) (bodyLine : Nat) (body : List String) : Directive :=
  { file, headerLine := h.headerLine, include? := h.include?, decls := h.decls, body, bodyLine }

/-- The text of a header line, and whether it ends the directive: in a host file the end of the
comment does. -/
def headerText (mode : ScanMode) (remainder : String) : String × Bool :=
  match mode with
  | .host => Header.cutComment remainder
  | .script => (remainder, false)

/-- Read a header line, which may be the last of its directive. -/
def headerStep (file : SourceFile) (mode : ScanMode) (line : Nat) (remainder : String)
    (h : OpenHeader) : Scan (Option Directive × Position) := do
  let (text, closed) := headerText mode remainder
  let h ← addDeclarations file line text h
  if closed then
    checkHeader file h
    return (some (close file h (line + 1) []), .outside none)
  else return (none, .header h)

/-- Read a line of a script. In a host file the end of the comment ends the directive. -/
def bodyStep (file : SourceFile) (mode : ScanMode) (text : String) (b : OpenBody) :
    Option Directive × Position :=
  let more := Position.body { b with body := text :: b.body }
  match mode with
  | .script => (none, more)
  | .host =>
    match Header.cutComment text with
    | (_, false) => (none, more)
    | (before, true) =>
      let body := dedentLines (some bodyComment) (before :: b.body).reverse
      (some (close file b.toOpenHeader b.bodyLine body), .outside none)

def step (dir : String) (file : SourceFile) (mode : ScanMode) (line : Nat) (text : String) :
    Position → Scan (Option Directive × Position)
  | .outside pending => do
    match Header.includeTarget? text with
    | some (target, commented) =>
      return (none, .outside (some ⟨⟨Path.join dir target, line⟩, commented⟩))
    | none =>
      match Header.first? mode text with
      | some remainder =>
        headerStep file mode line remainder
          { headerLine := line, include? := pending.map (·.target) }
      | none =>
        warnUnused file pending
        return (none, .outside none)
  | .header h => do
    match Header.later? mode text with
    | some remainder => headerStep file mode line remainder h
    | none =>
      checkHeader file h
      return bodyStep file mode text { h with bodyLine := line }
  | .body b => return bodyStep file mode text b

/-- What the end of a source at a line means. A script may end there, a comment may not. -/
def finish (file : SourceFile) (mode : ScanMode) (line : Nat) : Position → Scan (List Directive)
  | .outside _ => pure []
  | .header h => do
    checkHeader file h
    match mode with
    | .host => throw (HeaderFault.unterminated.diagnostic file [h.headerLine])
    | .script => return [close file h line []]
  | .body b =>
    match mode with
    | .host => throw (HeaderFault.unterminated.diagnostic file [b.headerLine])
    | .script => pure [close file b.toOpenHeader b.bodyLine b.body.reverse]

/-- The directives in the lines from number `line` on. -/
def directivesFrom (dir : String) (file : SourceFile) (mode : ScanMode) (line : Nat) :
    List String → Position → Scan (List Directive)
  | [], p => finish file mode line p
  | text :: rest, p => do
    let (found, p) ← step dir file mode line text p
    let more ← directivesFrom dir file mode (line + 1) rest p
    return found.toList ++ more

def directives (dir : String) (source : SourceUnit) : Scan (List Directive) :=
  directivesFrom dir source.file source.mode 1 source.file.lines (.outside none)

end Scan

/-- The directives of all sources, whose generated files are named relative to a directory. -/
def scan (dir : String) (sources : List SourceUnit) : Scan (List Directive) :=
  return (← sources.mapM (Scan.directives dir)).flatten

end Metagen
