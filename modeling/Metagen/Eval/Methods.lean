import Metagen.Eval.Functions
import Metagen.Text.Search

/-! What the methods of lists, texts and records do. -/

namespace Metagen.Eval.Native

open Text

def listMethod (cell : Nat) (method : String) : Native Value := do
  match method with
  | "push" =>
    let v ← required "value"
    change (·.modifyList cell (·.push v))
    return .nil
  | "pop" =>
    let index ← (do
      match ← optional "index" with
      | some v => int "pop() index" v
      | none => return -1)
    let list ← read (·.listAt cell)
    match Value.place? index.toInt list.size with
    | some i =>
      change (·.modifyList cell (·.eraseIdxIfInBounds i))
      return list[i]?.getD .nil
    | none => fail (.popIndex index.toInt)
  | "extend" =>
    let more ← items "extend() argument" (← required "items")
    change (·.modifyList cell (· ++ more))
    return .nil
  | "contains" =>
    let v ← required "value"
    read fun s => .bool ((s.listAt cell).any (·.same s v))
  | "index" =>
    let v ← required "value"
    match ← read fun s => (s.listAt cell).findIdx? (·.same s v) with
    | some i => return .int (.ofNat i)
    | none => fail (.notInList (← read (v.renderNested ·)))
  | "reverse" =>
    change (·.modifyList cell (·.reverse))
    return .nil
  | other => fail (.noMethod "list" other)

def textArgument (name : String) : Native String := fun a =>
  (do text (a.callee ++ "() argument") (← required name) : Native String) a

def textList (parts : List String) : Native Value := make (·.newList (parts.map .text).toArray)

def textMethod (t method : String) : Native Value := do
  match method with
  | "upper" => return .text (toUpper t)
  | "lower" => return .text (toLower t)
  | "strip" => return .text (trim t)
  | "split" =>
    match ← optional "sep" with
    | some v =>
      let separator ← text "split() separator" v
      if separator.isEmpty then fail .emptySeparator
      textList (splitAt separator t)
    | none => textList (words t)
  | "replace" =>
    let old ← textArgument "old"
    let new ← textArgument "new"
    return .text (replaceAll old new t)
  | "starts_with" => return .bool ((← textArgument "prefix").toList.isPrefixOf t.toList)
  | "ends_with" => return .bool ((← textArgument "suffix").toList.isSuffixOf t.toList)
  | "contains" => return .bool (occursIn (← textArgument "text") t)
  | other => fail (.noMethod "string" other)

def recordMethod (cell : Nat) (method : String) : Native Value := do
  match method with
  | "keys" => textList (← read fun s => (s.recordAt cell).names)
  | "values" => make fun s => s.newList (s.recordAt cell).values.toArray
  | "get" =>
    let key ← text "get() key" (← required "key")
    let default ← optional "default"
    read fun s => ((s.recordAt cell).get? key).getD (default.getD .nil)
  | "has" =>
    let key ← text "has() key" (← required "key")
    read fun s => .bool ((s.recordAt cell).contains key)
  | other => fail (.noMethod "record" other)

/-- Call a method of a list, a text or a record. -/
def callMethod (receiver : Value) (method : String) : Native Value := do
  let result ← (match receiver with
    | .list cell => listMethod cell method
    | .text t => textMethod t method
    | .record cell => recordMethod cell method
    | v => fail (.noMethod v.typeName method))
  finish
  return result

end Metagen.Eval.Native
