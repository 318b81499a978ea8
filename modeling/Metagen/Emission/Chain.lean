import Metagen.Emission.Action

/-! Conditional chains: one branch per item, and perhaps a last one for all else. -/

namespace Metagen.Emission

inductive ChainStyle where
  /-- Blocks on their own, in code. -/
  | separate
  /-- One statement with `else if`. -/
  | elseIf
  /-- Blocks on their own, for the preprocessor. -/
  | preSeparate
  /-- One chain with `#elif`. -/
  | preElseIf
  deriving DecidableEq, Repr

namespace ChainStyle

def word : ChainStyle → String
  | separate => "if"
  | elseIf => "else if"
  | preSeparate => "#if"
  | preElseIf => "#elif"

def ofWord (s : String) : Except EmissionError ChainStyle :=
  match [separate, elseIf, preSeparate, preElseIf].find? (·.word == s) with
  | some style => .ok style
  | none => .error (.unknownChainStyle s)

/-- The branches form one chain, which may end in an else branch. -/
def chains : ChainStyle → Bool
  | elseIf | preElseIf => true
  | separate | preSeparate => false

/-- The scope of branch `index` of `count`. In a preprocessor chain only the last scope of all has a
closing side. -/
def entrance (style : ChainStyle) (index count : Nat) (condition : String) (hasElse : Bool) :
    Scope :=
  match style with
  | separate => .headed ("if (" ++ condition ++ ")")
  | elseIf => .headed ((if index == 0 then "if (" else "else if (") ++ condition ++ ")")
  | preSeparate => .headed ("#if " ++ condition)
  | preElseIf =>
    { header := some ((if index == 0 then "#if " else "#elif ") ++ condition)
      closing := some (if index + 1 == count && !hasElse then "#endif" else "") }

def otherwise (style : ChainStyle) : Except EmissionError Scope :=
  match style with
  | elseIf => .ok (.headed "else")
  | preElseIf => .ok (.headed "#else")
  | separate | preSeparate => .error (.otherwiseWithoutChain style.word)

end ChainStyle

variable {Failure State Item : Type} [HoldsEmitter State]

def branches (style : ChainStyle) (count : Nat) (hasElse : Bool)
    (condition : Item → Action Failure State String) (body : Item → Action Failure State Unit) :
    Nat → List Item → Action Failure State Unit
  | _, [] => pure ()
  | index, item :: rest => do
    let text ← condition item
    withScope (style.entrance index count text hasElse) (body item)
    branches style count hasElse condition body (index + 1) rest

/-- One branch per item, whose condition and body are actions, and an else branch if there is a body
for it. Without items the else body stands on its own. -/
def chain (wrap : EmissionError → Failure) (style : ChainStyle) (items : List Item)
    (condition : Item → Action Failure State String) (body : Item → Action Failure State Unit) :
    Option (Action Failure State Unit) → Action Failure State Unit
  | none => branches style items.length false condition body 0 items
  | some elseBody =>
    match style.otherwise with
    | .error error => throw (wrap error)
    | .ok scope => do
      branches style items.length true condition body 0 items
      if items.isEmpty then elseBody else withScope scope elseBody

end Metagen.Emission
