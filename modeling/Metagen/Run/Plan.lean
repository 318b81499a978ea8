import Metagen.Directive.Compilation
import Metagen.Directive.Resolution
import Metagen.Directive.Scan
import Metagen.Directive.Schedule

/-! The plan of a run: everything that is settled before any directive runs. -/

namespace Metagen

inductive Failure where
  | diagnostic (d : Diagnostic)
  /-- A source cannot be read. -/
  | read (path : String)
  /-- A file cannot be written. -/
  | write (path : String)
  /-- A file with options does not hold options. -/
  | config (path : String)
  /-- A script runs longer than scripts may. -/
  | outOfFuel
  deriving DecidableEq, Repr

/-- Directives with their scripts, and the order in which they run. -/
structure Plan where
  directives : List Directive
  graph : DependencyGraph
  /-- Numbers of directives. -/
  order : List Nat
  /-- The scripts of the directives, in the same order as the directives. -/
  units : List CompiledUnit

namespace Plan

def ofDirectives (ds : List Directive) : Except Diagnostic Plan := do
  let (directives, graph) ← resolve ds
  let order ← schedule directives
  let units ← directives.mapM (·.compile)
  return { directives, graph, order, units }

/-- The plan for some sources; scanning them may give warnings. -/
def ofSources (dir : String) (sources : List SourceUnit) : Scan Plan := do
  match ofDirectives (← scan dir sources) with
  | .ok plan => return plan
  | .error d => throw d

def item? (p : Plan) (i : Nat) : Option (Directive × CompiledUnit) := do
  return (← p.directives[i]?, ← p.units[i]?)

/-- Names of the directives in the order in which they run. -/
def labels (p : Plan) : List String := p.order.filterMap fun i => p.directives[i]?.map (·.label)

/-- The scripts of all directives in the order in which they run. -/
def dump (p : Plan) : String :=
  "\n".intercalate (p.order.filterMap fun i => p.units[i]?.map (·.script.text))

/-- What a script that is no function is called. -/
def topLabel : String := "<meta-directive>"

def place (p : Plan) (f : Eval.Frame) : Place :=
  match f.site with
  | .native => .native (f.label.getD "<native>")
  | .unit i =>
    match p.item? i with
    | some (d, unit) => d.place (unit.map.sourceLine f.line) (some (f.label.getD topLabel))
    | none => .native (f.label.getD topLabel)

def runtimeDiagnostic (p : Plan) (e : Eval.EvalError) : Diagnostic :=
  ⟨.runtimeFailure, .runtime e.fault.kind, e.fault.message, e.trace.map p.place⟩

end Plan

end Metagen
