import Metagen.Proofs.Eval.Traces
import Metagen.Proofs.Run.Execution

/-! The scripts of a run. In every state of a run all functions are those of its scripts, so that
what a script leaves and tells is known of every directive of a run. -/

namespace Metagen

open Eval Emission

/-- The scripts of a plan by their numbers. -/
def Plan.scripts (plan : Plan) : Scripts := fun i => (plan.item? i).map (·.2.program)

namespace SymbolTable

variable {symbols : SymbolTable} {env : Env} {s : Store}

/-- Importing a name makes and changes no function, as functions are shared when a value is
copied. -/
theorem functions_importName (symbols : SymbolTable) (env : Env) (s : Store) (name : String) :
    (importName symbols env s name).functions = s.functions := by
  unfold importName
  cases symbols.get? name with
  | none => rfl
  | some value => rfl

/-- Imports are copies, and functions are not copied. -/
theorem functions_namespaceFor (symbols : SymbolTable) (d : Directive) (s : Store) :
    (symbols.namespaceFor d s).2.functions = s.functions := by
  have hImports : ∀ (names : List String) (env : Env) (s : Store),
      (names.foldl (importName symbols env) s).functions = s.functions := by
    intro names env
    induction names with
    | nil => exact fun _ => rfl
    | cons name rest ih => exact fun s => (ih _).trans (functions_importName symbols env s name)
  exact hImports d.importedNames _ _

end SymbolTable

namespace RunState

variable {plan : Plan} {st : RunState} {d : Directive} {unit : CompiledUnit} {i : Nat}

/-- What comes of the script of a directive. -/
structure Evaluates (plan : Plan) (st : RunState) (d : Directive) (i : Nat)
    (outcome : Except Stop Unit) (ran : RunState) : Prop where
  functions : FunctionsFit plan.scripts ran.store
  entries : ran.entries = st.entries
  target : ran.emitter.target = d.include?.map fun inc => Target.mk inc.path d.file.path inc.line
  receipt : ran.emitter.receipt = st.emitter.receipt
  told : ∀ stop, outcome = .error stop → Told plan.scripts (topFrame i 0) [] stop

/-- Evaluating a script keeps functions fit, the manifest and the receipt, sets the directive's
file, and says where a failure happened. -/
theorem evaluates (hItem : plan.item? i = some (d, unit))
    (hFunctions : FunctionsFit plan.scripts st.store) (fuel : Nat) :
    Evaluates plan st d i ((st.start d).2.evaluate fuel unit i (st.start d).1).1
      ((st.start d).2.evaluate fuel unit i (st.start d).1).2 := by
  have hScript : plan.scripts i = some unit.program := by rw [Plan.scripts, hItem]; rfl
  have hBegun : FunctionsFit plan.scripts (st.start d).2.store := by
    intro closure hClosure
    exact hFunctions closure (SymbolTable.functions_namespaceFor st.symbols d st.store ▸ hClosure)
  have hLeaves := leaves_runProgram
    (m := { store := (st.start d).2.store, emitter := (st.start d).2.emitter })
    hScript hBegun rfl rfl fuel (st.start d).1
  unfold evaluate
  dsimp only
  cases hRun : runProgram fuel unit.program i (st.start d).1
      { store := (st.start d).2.store, emitter := (st.start d).2.emitter } with
  | ok done m =>
      rw [hRun] at hLeaves
      refine ⟨hLeaves.1, rfl, congrArg Prod.fst hLeaves.2, congrArg Prod.snd hLeaves.2, ?_⟩
      rintro stop ⟨⟩
  | error stop m =>
      rw [hRun] at hLeaves
      refine ⟨hLeaves.1, rfl, congrArg Prod.fst hLeaves.2.1, congrArg Prod.snd hLeaves.2.1, ?_⟩
      rintro _ ⟨⟩
      exact hLeaves.2.2

end RunState

end Metagen
