import Std.Time
import Metagen.CommandLine.Command
import Metagen.Diagnostic.Render

/-! The command on real files. -/

namespace Metagen.CommandLine

def usageText : String :=
  "Run the #meta directives of C sources and write the code they generate\n\n"
    ++ "Usage: metagen [OPTIONS] [SOURCES]...\n\n"
    ++ "Arguments:\n  [SOURCES]...  Source files to scan, in order\n\n"
    ++ "Options:\n"
    ++ "  -o, --output-dir <OUTPUT_DIR>  Directory include paths are resolved under\n"
    ++ "      --config <CONFIG>          JSON file with default options\n"
    ++ "      --dump <DUMP>              "
    ++ "Write every compiled directive as one script to this file\n"
    ++ "      --no-receipt               Do not prefix generated files with a receipt comment\n"
    ++ "      --manifest <MANIFEST>      Write the run manifest (JSON) to this file\n"
    ++ "      --color <COLOR>            "
    ++ "Color diagnostics [default: auto] [possible values: auto, always, never]\n"
    ++ "  -v, --verbose...               More logging (-v debug, -vv trace)\n"
    ++ "  -h, --help                     Print help\n"
    ++ "  -V, --version                  Print version\n"

def Usage.message : Usage → String
  | unknownArgument => "error: unexpected argument found"
  | invalidValue => "error: invalid or missing value for an argument"
  | argumentConflict => "error: an argument cannot be used multiple times"
  | tooManyValues => "error: unexpected value for an argument"
  | help => usageText
  | version => "metagen 0.1.0"

def failureMessage (color : Bool) : Failure → String
  | .diagnostic d => d.render color
  | .read path => "cannot read " ++ path ++ "\n"
  | .write path => "cannot write " ++ path ++ "\n"
  | .config path => "invalid configuration in " ++ path ++ "\n"
  | .outOfFuel => "a script does not end\n"

def answered {α : Type} (action : IO α) : IO (Option α) :=
  try some <$> action catch _ => return none

/-- Real files, real clocks, and a log on the error output. -/
def realHost (a : Arguments) : Host IO where
  read path := answered (IO.FS.readFile path)
  write path text := return (← answered (IO.FS.writeFile path text)).isSome
  makeDirectory path := return (← answered (IO.FS.createDirAll path)).isSome
  log line := IO.eprintln line
  before d := IO.eprintln ("meta-preprocessing " ++ d.label)
  after d text := do
    if a.logFilter != "info" then
      IO.eprintln (d.label ++ " finished (" ++ toString (text.getD "").utf8ByteSize
        ++ " bytes generated)")
  time := return (← Std.Time.PlainDateTime.now).format "uuuu-MM-dd HH:mm:ss"
  timestamp := return (← Std.Time.DateTime.now).format "uuuu-MM-dd'T'HH:mm:ssXXX"
  clock := IO.monoNanosNow

def tell : Outcome → IO Unit
  | .finished _ report =>
    IO.eprintln (toString report.final.entries.length ++ " meta-directive(s) processed")
  | .failed options failure => IO.eprint (failureMessage options.color failure)
  | .unusable (.failure failure) => IO.eprint (failureMessage false failure)
  | .unusable .noSources => IO.eprintln "no source files given"

def runCommand (a : Arguments) : IO UInt32 := do
  let terminal ← (← IO.getStderr).isTty
  let outcome ← execute (realHost a) Eval.ampleFuel terminal a
  tell outcome
  return .ofNat outcome.exitCode

end Metagen.CommandLine

open Metagen.CommandLine in
def main (arguments : List String) : IO UInt32 := do
  match Arguments.parse arguments with
  | .ok a => runCommand a
  | .error usage =>
    if usage == .help || usage == .version then
      IO.println usage.message
      return 0
    else
      IO.eprintln usage.message
      return 2
