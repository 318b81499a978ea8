import Metagen.CommandLine.Arguments
import Metagen.Run.Execution

/-! What the command does with its arguments: options are taken from a file if one is given, and the
arguments replace them; then the run, and the manifest. -/

namespace Metagen.CommandLine

/-- Why there are no options to run with. -/
inductive Unusable where
  | failure (f : Failure)
  | noSources
  deriving DecidableEq, Repr

inductive Outcome where
  | unusable (why : Unusable)
  | failed (options : Options) (failure : Failure)
  | finished (options : Options) (report : RunReport)

def Outcome.exitCode : Outcome → Nat
  | finished .. => 0
  | failed .. => 1
  | unusable _ => 2

/-- Options with those that the arguments give; `terminal` tells whether diagnostics go to one. -/
def overlay (a : Arguments) (terminal : Bool) (o : Options) : Options where
  sources := if a.sources.isEmpty then o.sources else a.sources
  outputDir := a.outputDir.getD o.outputDir
  dumpPath := a.dump <|> o.dumpPath
  receipt := o.receipt && !a.noReceipt
  color := match a.color with
    | some .always => true
    | some .never => false
    | some .auto | none => o.color || terminal

variable {m : Type → Type} [Monad m]

def resolveOptions (host : Host m) (terminal : Bool) (a : Arguments) :
    m (Except Unusable Options) := do
  let base ← (match a.config with
    | some path => (Run.loadOptions host path).run
    | none => return .ok {})
  match base with
  | .error f => return .error (.failure f)
  | .ok base =>
    let options := overlay a terminal base
    return if options.sources.isEmpty then .error .noSources else .ok options

/-- Write the manifest of a run where the arguments say. -/
def writeManifest (host : Host m) (a : Arguments) (report : RunReport) :
    ExceptT Failure m Unit := do
  if let some path := a.manifest then
    let text := Manifest.render (← host.timestamp) report.final.entries
    unless ← host.write path text do Run.failWith (.write path)

def runAndReport (host : Host m) (fuel : Nat) (a : Arguments) (options : Options) :
    ExceptT Failure m RunReport := do
  let report ← Run.run host fuel options
  writeManifest host a report
  return report

def execute (host : Host m) (fuel : Nat) (terminal : Bool) (a : Arguments) : m Outcome := do
  match ← resolveOptions host terminal a with
  | .error why => return .unusable why
  | .ok options =>
    match ← (runAndReport host fuel a options).run with
    | .ok report => return .finished options report
    | .error failure => return .failed options failure

end Metagen.CommandLine
