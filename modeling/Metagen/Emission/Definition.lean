import Metagen.Emission.Action
import Metagen.Text.Ranges

/-! Macro definitions. A macro may be overloaded on some of its parameters: each definition then
holds for one choice of their values, under a name of its own, and a dispatcher pastes the values
into that name. All overloads of a macro belong to one directive and share parameters and keys. -/

namespace Metagen.Emission

open Text

structure Definition where
  name : String
  params : Option (List String) := none
  expansion : String
  /-- Wrap the expansion into a loop that runs once. -/
  doWhile : Bool := false
  /-- The parameters this definition is selected by, with their values. -/
  overload : List (String × String) := []
  deriving DecidableEq, Repr

/-- Text that can be part of a name. -/
def isNamePart (value : String) : Bool := !value.isEmpty && value.toList.all isIdentChar

namespace Emitter

/-- Write a definition. An expansion of several lines becomes a scope. -/
def defineMacro (e : Emitter) (name : String) (params : Option (List String)) (expansion : String)
    (doWhile : Bool) : Emitter :=
  let signature := match params with
    | some params => name ++ "(" ++ ", ".intercalate params ++ ")"
    | none => name
  let expansion := dedent { literal := true } expansion
  if expansion.toList.contains '\n' then
    let (outer, e) := e.enter (.headed ("#define " ++ signature))
    let e :=
      if doWhile then
        let (inner, e) := e.enter
          { header := some "do", opening := some "\x7b", closing := some "\x7d\nwhile (false)" }
        (e.line expansion).exit inner
      else e.line expansion
    e.exit outer
  else if doWhile then
    e.line ("#define " ++ signature ++ " do \x7b " ++ expansion ++ " \x7d while (false)")
  else e.line ("#define " ++ signature ++ " " ++ expansion)

end Emitter

/-- What is wrong with one overload key and its value. -/
def overloadFault? (name : String) (params : List String) : String × String → Option EmissionError
  | (key, value) =>
    if !params.contains key then some (.overloadKeyNotParam name key (", ".intercalate params))
    else if !isNamePart value then some (.invalidOverloadValue name value)
    else none

/-- Enter an overload into the ledger, or find it there already. -/
def Emit.registerOverload (name : String) (group : OverloadGroup) : Emit Unit := do
  let e ← get
  if let some owner := e.owners.lookup name then
    if owner != e.owner then throw (.overloadOwned name owner)
  match e.overloads.lookup name with
  | some existing => if existing != group then throw (.overloadMismatch name)
  | none =>
    let owners := if e.owners.any (·.1 == name) then e.owners else e.owners ++ [(name, e.owner)]
    set { e with owners, overloads := e.overloads ++ [(name, group)] }

def Emit.define (d : Definition) : Emit Unit := do
  if d.overload.isEmpty then
    changeEmitter (·.defineMacro d.name d.params d.expansion d.doWhile)
  else
    let some params := d.params | throw (.overloadWithoutParams d.name)
    if let some fault := d.overload.findSome? (overloadFault? d.name params) then throw fault
    let group : OverloadGroup := ⟨params, d.overload.map (·.1)⟩
    Emit.registerOverload d.name group
    let rest := if group.rest.isEmpty then none else some group.rest
    let name := variantName d.name (d.overload.map (·.2))
    changeEmitter (·.defineMacro name rest d.expansion d.doWhile)

end Metagen.Emission
