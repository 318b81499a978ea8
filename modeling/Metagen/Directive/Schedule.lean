import Metagen.Directive.Basic

/-! The order in which directives run: each after those it imports from, and otherwise in the order
in which they were found. -/

namespace Metagen.Schedule

/-- The first item with a property, and the others in order. -/
def takeFirst? {α : Type} (p : α → Bool) : List α → Option (α × List α)
  | [] => none
  | x :: rest =>
    if p x then some (x, rest) else (takeFirst? p rest).map fun (y, others) => (y, x :: others)

/-- Taking one item out of a list makes it shorter by one, which is why scheduling comes to an
end. -/
theorem length_of_takeFirst? {α : Type} (p : α → Bool) {xs others : List α} {x : α}
    (h : takeFirst? p xs = some (x, others)) : others.length + 1 = xs.length := by
  induction xs generalizing x others with
  | nil => simp [takeFirst?] at h
  | cons y rest ih =>
    unfold takeFirst? at h
    split at h
    · simp only [Option.some.injEq, Prod.mk.injEq] at h
      simp [h.2]
    · obtain ⟨⟨z, zs⟩, found, e⟩ := Option.map_eq_some_iff.1 h
      simp only [Prod.mk.injEq] at e
      simp [← e.2, ih found]

/-- All imports of a directive are available. -/
def isReady (available : List String) (d : Directive) : Bool :=
  d.importedNames.all available.contains

/-- Numbers of directives in the order in which they become ready, and the directives that never
do. -/
def arrange (available : List String) (waiting : List (Directive × Nat)) :
    List Nat × List Directive :=
  match _found : takeFirst? (fun entry => isReady available entry.1) waiting with
  | some ((d, i), others) =>
    let (order, stuck) := arrange (available ++ d.definedNames) others
    (i :: order, stuck)
  | none => ([], waiting.map (·.1))
termination_by waiting.length
decreasing_by
  have := length_of_takeFirst? _ _found
  omega

/-- The diagnostic of directives that wait for each other. Those whose headers name nothing wait for
all others and are not blamed. -/
def circular (stuck : List Directive) : Diagnostic :=
  let blamed := stuck.filter (·.isExplicit)
  { code := .circularDependency
    kind := .structural
    message := "circular dependency between meta-directives "
      ++ ", ".intercalate (blamed.map (·.label))
    places := blamed.map fun d => d.place d.headerLine none }

end Metagen.Schedule

namespace Metagen

/-- The numbers of directives in the order in which they run. -/
def schedule (ds : List Directive) : Except Diagnostic (List Nat) :=
  match Schedule.arrange [] ds.zipIdx with
  | (order, []) => .ok order
  | (_, stuck) => .error (Schedule.circular stuck)

end Metagen
