import Metagen.Directive.Basic

/-! The arguments of the command line. Options have a long name, and some a letter; letters may be
put together after one dash. The value of an option stands after an equals sign, right after its
letter, or as the next argument. A value is looked at only when the next option or the end is
reached, so that an unknown option is told first. After two dashes everything is a source. -/

namespace Metagen.CommandLine

/-- When diagnostics are shown with styles. -/
inductive ColorChoice where
  /-- If the options ask for it, or on a terminal. -/
  | auto
  | always
  | never
  deriving DecidableEq, Repr

def ColorChoice.ofWord? : String → Option ColorChoice
  | "auto" => some auto
  | "always" => some always
  | "never" => some never
  | _ => none

structure Arguments where
  sources : List String := []
  outputDir : Option String := none
  /-- A file with options. -/
  config : Option String := none
  dump : Option String := none
  noReceipt : Bool := false
  /-- Where to write the manifest. -/
  manifest : Option String := none
  color : Option ColorChoice := none
  /-- How often more logging was asked for. -/
  verbose : Nat := 0
  deriving DecidableEq, Repr

/-- Arguments that cannot be used, or that ask for something other than a run. -/
inductive Usage where
  | unknownArgument
  /-- A value is missing, or it is none of those that are possible. -/
  | invalidValue
  /-- An option is given twice. -/
  | argumentConflict
  /-- An option without a value is given one. -/
  | tooManyValues
  | help
  | version
  deriving DecidableEq, Repr

inductive ValueOption where
  | outputDir
  | config
  | dump
  | manifest
  | color
  deriving DecidableEq, Repr

inductive Flag where
  | noReceipt
  | verbose
  | help
  | version
  deriving DecidableEq, Repr

inductive Choice where
  | valued (o : ValueOption)
  | flag (f : Flag)
  deriving DecidableEq, Repr

def Choice.ofName? : String → Option Choice
  | "output-dir" => some (valued .outputDir)
  | "config" => some (valued .config)
  | "dump" => some (valued .dump)
  | "manifest" => some (valued .manifest)
  | "color" => some (valued .color)
  | "no-receipt" => some (flag .noReceipt)
  | "verbose" => some (flag .verbose)
  | "help" => some (flag .help)
  | "version" => some (flag .version)
  | _ => none

def Choice.ofLetter? : Char → Option Choice
  | 'o' => some (valued .outputDir)
  | 'v' => some (flag .verbose)
  | 'h' => some (flag .help)
  | 'V' => some (flag .version)
  | _ => none

/-- What was read but not looked at. -/
inductive Pending where
  | nothing
  /-- An option, with its value if that has been read. -/
  | valued (o : ValueOption) (value : Option String)
  /-- Sources, the last first. -/
  | sources (paths : List String)
  deriving DecidableEq, Repr

structure Progress where
  arguments : Arguments := {}
  pending : Pending := .nothing
  /-- Two dashes were read. -/
  trailing : Bool := false
  deriving DecidableEq, Repr

def givePath (given : Option String) (value : String) : Except Usage (Option String) :=
  if given.isSome then .error .argumentConflict
  else if value.isEmpty then .error .invalidValue
  else .ok (some value)

def giveValue (a : Arguments) (value : String) : ValueOption → Except Usage Arguments
  | .outputDir => return { a with outputDir := ← givePath a.outputDir value }
  | .config => return { a with config := ← givePath a.config value }
  | .dump => return { a with dump := ← givePath a.dump value }
  | .manifest => return { a with manifest := ← givePath a.manifest value }
  | .color =>
    if a.color.isSome then .error .argumentConflict
    else match ColorChoice.ofWord? value with
      | some choice => .ok { a with color := some choice }
      | none => .error .invalidValue

namespace Progress

/-- Look at what was read before. -/
def settle (p : Progress) : Except Usage Progress :=
  match p.pending with
  | .nothing => .ok p
  | .valued _ none => .error .invalidValue
  | .valued o (some value) =>
    return { p with arguments := ← giveValue p.arguments value o, pending := .nothing }
  | .sources paths =>
    if paths.any String.isEmpty then .error .invalidValue
    else
      .ok { p with
        arguments := { p.arguments with sources := p.arguments.sources ++ paths.reverse }
        pending := .nothing }

def readFlag (p : Progress) (f : Flag) : Except Usage Progress := do
  let p ← p.settle
  match f with
  | .noReceipt =>
    if p.arguments.noReceipt then .error .argumentConflict
    else return { p with arguments := { p.arguments with noReceipt := true } }
  | .verbose =>
    return { p with arguments := { p.arguments with verbose := p.arguments.verbose + 1 } }
  | .help => .error .help
  | .version => .error .version

/-- Read an option, with the value that is attached to it if there is one. -/
def readValued (p : Progress) (o : ValueOption) : Option String → Except Usage Progress
  | some value => do
    let p ← p.settle
    return { p with arguments := ← giveValue p.arguments value o }
  | none => do
    let p ← p.settle
    return { p with pending := .valued o none }

def readLong (p : Progress) (text : List Char) : Except Usage Progress :=
  let name := text.takeWhile (· != '=')
  let value := if name.length == text.length then none
    else some (String.ofList (text.drop (name.length + 1)))
  match Choice.ofName? (.ofList name), value with
  | none, _ => .error .unknownArgument
  | some (.valued o), value => p.readValued o value
  | some (.flag f), none => p.readFlag f
  | some (.flag _), some _ => .error .tooManyValues

/-- The value attached to a letter; an equals sign in front does not belong to it. -/
def attached? : List Char → Option String
  | [] => none
  | '=' :: value => some (.ofList value)
  | value => some (.ofList value)

def readLetters (p : Progress) : List Char → Except Usage Progress
  | [] => .ok p
  | c :: rest =>
    match Choice.ofLetter? c with
    | none => .error .unknownArgument
    | some (.valued o) => p.readValued o (attached? rest)
    | some (.flag f) => do readLetters (← p.readFlag f) rest

def readSource (p : Progress) (path : String) : Except Usage Progress :=
  match p.pending with
  | .sources paths => .ok { p with pending := .sources (path :: paths) }
  | _ => do
    let p ← p.settle
    return { p with pending := .sources [path] }

/-- Read something that is no option: the value that an option waits for, or a source. -/
def readPlain (p : Progress) (text : String) : Except Usage Progress :=
  match p.pending with
  | .valued o none => .ok { p with pending := .valued o (some text) }
  | _ => p.readSource text

/-- Read an argument. A single dash is no option. -/
def read (p : Progress) (argument : String) : Except Usage Progress :=
  if p.trailing then p.readSource argument
  else match argument.toList with
    | ['-', '-'] => .ok { p with trailing := true }
    | '-' :: '-' :: text => p.readLong text
    | '-' :: c :: rest => p.readLetters (c :: rest)
    | _ => p.readPlain argument

end Progress

def Arguments.parse (arguments : List String) : Except Usage Arguments := do
  let p ← arguments.foldlM Progress.read {}
  return (← p.settle).arguments

def Arguments.logFilter (a : Arguments) : String :=
  match a.verbose with
  | 0 => "info"
  | 1 => "debug"
  | _ => "trace"

end Metagen.CommandLine
