import Metagen.Eval.Run
import Metagen.Options
import Metagen.Run.Host
import Metagen.Run.Manifest
import Metagen.Run.Plan
import Metagen.Run.Symbols
import Metagen.Sha256

/-! Runs. Everything is settled before any directive runs; then directives run one after the other
with one emitter, each with names of its own, and a file is written as soon as its directive has
run. What a failed run has written stays. -/

namespace Metagen

open Eval Emission

/-- What one directive leaves to the next ones. -/
structure RunState where
  store : Store := {}
  emitter : Emitter := {}
  symbols : SymbolTable := {}
  /-- Directives that have run, in order. -/
  entries : List ManifestEntry := []

namespace RunState

def start (st : RunState) (d : Directive) : Env × RunState :=
  let (env, store) := st.symbols.namespaceFor d st.store
  let target := d.include?.map fun i => Target.mk i.path d.file.path i.line
  (env, { st with store, emitter := st.emitter.reset d.label target })

def evaluate (st : RunState) (fuel : Nat) (unit : CompiledUnit) (number : Nat) (env : Env) :
    Except Stop Unit × RunState :=
  let machine : Machine := { store := st.store, emitter := st.emitter }
  match runProgram fuel unit.program number env machine with
  | .ok () m => (.ok (), { st with store := m.store, emitter := m.emitter })
  | .error stop m => (.error stop, { st with store := m.store, emitter := m.emitter })

def entry (d : Directive) (generated : Option Generated) (elapsed : Nat) : ManifestEntry :=
  { source := d.file.path
    line := d.headerLine
    output := generated.map (·.path)
    exports := d.definedNames
    elapsed
    sha256 := generated.map fun g => Sha256.ofText g.text }

end RunState

/-- The diagnostic of a definition that is not bound when its directive has run. -/
def unboundDiagnostic (d : Directive) (decl : Declaration) : Diagnostic :=
  ⟨.unboundExport, .unboundExport, decl.name, [d.place decl.line none]⟩

structure RunReport where
  plan : Plan
  final : RunState

namespace Run

variable {m : Type → Type} [Monad m]

def failWith {α : Type} (failure : Failure) : ExceptT Failure m α := throw failure

def output (host : Host m) (path text : String) : ExceptT Failure m Unit := do
  unless ← host.output path text do failWith (.write path)

def showLines (host : Host m) (lines : List String) : ExceptT Failure m Unit :=
  lines.forM fun line => host.log line

def checkOutcome (plan : Plan) : Except Stop Unit → ExceptT Failure m Unit
  | .ok () => pure ()
  | .error (.failed error) => failWith (.diagnostic (plan.runtimeDiagnostic error))
  | .error .outOfFuel => failWith .outOfFuel

def finish (host : Host m) (d : Directive) (st : RunState) (started : Nat) :
    ExceptT Failure m RunState := do
  let (generated, emitter) := st.emitter.finishAt (← host.time)
  if let some file := generated then output host file.path file.text
  host.after d (generated.map (·.text))
  let stopped ← host.clock
  return { st with
    emitter, entries := st.entries ++ [RunState.entry d generated (stopped - started)] }

def execute (host : Host m) (fuel : Nat) (plan : Plan) (st : RunState) (i : Nat) :
    ExceptT Failure m RunState := do
  match plan.item? i with
  | none => return st
  | some (d, unit) =>
    let started ← host.clock
    let (env, st) := st.start d
    host.before d
    let (outcome, ran) := st.evaluate fuel unit i env
    showLines host (ran.store.log.toList.drop st.store.log.size)
    checkOutcome plan outcome
    match SymbolTable.record d env ran.store ran.symbols with
    | .error decl _ => failWith (.diagnostic (unboundDiagnostic d decl))
    | .ok () symbols => finish host d { ran with symbols } started

def executeAll (host : Host m) (fuel : Nat) (plan : Plan) (receipt : Bool) :
    ExceptT Failure m RunState :=
  plan.order.foldlM (execute host fuel plan) { emitter := { receipt } }

/-- Show the warnings of a scan, and stop the run if it failed. -/
def checkScan {α : Type} (host : Host m) (scan : Scan α) : ExceptT Failure m α := do
  match scan #[] with
  | .ok a warnings =>
    showLines host warnings.toList
    return a
  | .error d warnings =>
    showLines host warnings.toList
    failWith (.diagnostic d)

def runSources (host : Host m) (fuel : Nat) (options : Options) (sources : List SourceUnit) :
    ExceptT Failure m RunReport := do
  let plan ← checkScan host (Plan.ofSources options.outputDir sources)
  if let some path := options.dumpPath then output host path plan.dump
  return ⟨plan, ← executeAll host fuel plan options.receipt⟩

def readSource (host : Host m) (path : String) : ExceptT Failure m SourceUnit := do
  match ← host.read path with
  | some text => return .ofText path text
  | none => failWith (.read path)

/-- Run the directives of the sources that the options name. -/
def run (host : Host m) (fuel : Nat) (options : Options) : ExceptT Failure m RunReport := do
  runSources host fuel options (← options.sources.mapM (readSource host))

def loadOptions (host : Host m) (path : String) : ExceptT Failure m Options := do
  match ← host.read path with
  | none => failWith (.read path)
  | some text =>
    match Options.ofJson? text with
    | some options => return options
    | none => failWith (.config path)

end Run

end Metagen
