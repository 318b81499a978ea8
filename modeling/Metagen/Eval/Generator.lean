import Metagen.Emission.Chain
import Metagen.Emission.Definition
import Metagen.Emission.Enumeration
import Metagen.Emission.Table
import Metagen.Eval.Level
import Metagen.Eval.Methods
import Metagen.Text.Search
import Metagen.Text.Similarity

/-! The methods of the generator, by which scripts generate text. They take values apart into
requests for text, and call functions of the script for the bodies of scopes, sections and chains.
-/

namespace Metagen.Eval

open Emission Text

/-- Steps of a method that takes its arguments one by one. -/
abbrev Method := StateT Args EvalM

def Method.ofNative {α : Type} (action : Native α) : Method α := fun args => onStore (action args)

instance : MonadLift Native Method := ⟨Method.ofNative⟩

namespace Generator

def methods : List String := ["line", "blank", "enter", "enums", "define", "lut", "ifs", "section"]

/-- Fail. -/
def refuse {α : Type} (error : EmissionError) : Native α := Native.fail (.emission error)

def request (action : Emit Unit) : EvalM Unit := liftEmit Stop.ofRefusal action

def write (change : Emitter → Emitter) : EvalM Unit := changeEmitter change

/-- Texts of a list, or the parts of a text between commas. -/
def textsOf (what : String) : Value → Native (List String)
  | .text t => pure (((splitAt "," t).map trim).filter fun part => !part.isEmpty)
  | .list cell => do (← Native.read (·.listAt cell)).toList.mapM (Native.text what)
  | v => Native.fail (.wrongType what "a string or a list" v.typeName)

/-- The fragments of a line: the items of a list, or the value itself. -/
def fragmentsOf (s : Store) : Value → List String
  | .list cell => (s.listAt cell).toList.map (·.render s)
  | v => [v.render s]

/-- Fragments of text, or an empty line without any. -/
def line : Method Unit := do
  match ← Native.rest with
  | [] => write (·.blank)
  | values =>
    let fragments ← readStore fun s => values.flatMap (fragmentsOf s)
    write (·.lines fragments)

/-- A scope with a function as its body. -/
def enter (ev : Level) : Method Unit := do
  let header ← Native.optionalText "Meta.enter() header" (← Native.optional "header")
  let body ← Native.required "body"
  let opening ← Native.optionalText "opening" (← Native.optionalNamed "opening")
  let closing ← Native.optionalText "closing" (← Native.optionalNamed "closing")
  let indented ← (do
    match ← Native.optionalNamed "indented" with
    | some v => return some (← isTrue v)
    | none => return none)
  withScope { header, opening, closing, indented } (discard (ev.callWith body []))

/-- A member of an enumeration: a name, or a pair of a name and a value. -/
def enumMember : Value → Native EnumMember
  | .text name => pure { name }
  | .list cell => do
    match (← Native.read (·.listAt cell)).toList with
    | [.text name, v] => return { name, value := some (← Native.cText v) }
    | _ => Native.fail .badMemberPair
  | v =>
    Native.fail (.wrongType "an enumeration member" "a name or a [name, value] pair" v.typeName)

def countStyle : Option Value → Native CountStyle
  | none | some (.bool true) => pure .constexpr
  | some .nil | some (.bool false) => pure .none
  | some v => do
    match CountStyle.ofWord (← Native.text "count style" v) with
    | .ok style => return style
    | .error error => refuse error

/-- An enumeration. Its members are a list, or a function that fills an empty one. -/
def enums (ev : Level) : Method Unit := do
  let name ← Native.text "enumeration name" (← Native.required "name")
  let underlying ← Native.optionalText "enumeration type" (← Native.optional "type")
  let given ← Native.required "members"
  let members ← (match given with
    | .function _ | .builtin _ => do
      let collected ← makeCell (·.newList #[])
      discard (ev.callWith given [collected])
      return collected
    | v => return v)
  let count ← countStyle (← Native.optional "count")
  let members ← (← Native.items "enumeration members" members).toList.mapM fun v =>
    Method.ofNative (enumMember v)
  request (Emit.enumeration { name, underlying, members, count })

/-- The C text of an expansion; a text stands for itself. -/
def expansionOf : Option Value → Native String
  | some (.text t) => pure t
  | some v => Native.cText v
  | none => Native.fail (.missingArgument "Meta.define" "expansion")

/-- The keys a macro is overloaded on, with their values. -/
def overloadOf : Option Value → Native (List (String × String))
  | none | some .nil => pure []
  | some (.record cell) => do
    (← Native.read (·.recordAt cell)).entries.mapM fun (key, v) => return (key, ← Native.cText v)
  | some v => Native.fail (.wrongType "overload" "a record" v.typeName)

/-- A macro definition. The expansion is the last positional argument, after the parameters. -/
def define : Method Unit := do
  let name ← Native.text "macro name" (← Native.required "name")
  let namedParams ← Native.optionalNamed "params"
  let namedExpansion ← Native.optionalNamed "expansion"
  let doWhile ← (do
    match ← Native.optionalNamed "do_while" with
    | some v => isTrue v
    | none => return false)
  let overload ← Native.optionalNamed "overload"
  let positional ← Native.rest
  let (expansion, positional) := match namedExpansion with
    | some v => (some v, positional)
    | none => (positional.getLast?, positional.dropLast)
  let (params, positional) := match namedParams, positional with
    | none, v :: rest => (some v, rest)
    | given, rest => (given, rest)
  unless positional.isEmpty do (Native.fail .macroArguments : Native Unit)
  let expansion ← expansionOf expansion
  let params ← (match params with
    | none | some .nil => return none
    | some v => return some (← textsOf "macro parameter" v))
  let overload ← overloadOf overload
  request (Emit.define { name, params, expansion, doWhile, overload })

/-- Members that one cell of a table's row gives. -/
def tableMembers (table : String) : Value → Native (List TableMember)
  | .record cell => do
    (← Native.read (·.recordAt cell)).entries.mapM fun (name, v) =>
      return { name, value := ← Native.cText v }
  | .list cell => do
    match (← Native.read (·.listAt cell)).toList with
    | [.text name, v] => return [{ name, value := ← Native.cText v }]
    | [.text type, .text name, v] => return [{ type := some type, name, value := ← Native.cText v }]
    | _ => refuse (.malformedTable table "a member is [name, value] or [type, name, value]")
  | v =>
    refuse (.malformedTable table ("unexpected " ++ v.typeName ++ " among an entry's members"))

/-- A row of a table: a record of members, or a list with an optional index and then members. -/
def tableRow (table : String) (row : Value) : Native TableRow := do
  let cells ← (match row with
    | .record _ => return [row]
    | .list cell => return (← Native.read (·.listAt cell)).toList
    | v =>
      refuse (.malformedTable table ("an entry must be a list or a record, not " ++ v.typeName)))
  let (index, cells) ← (match cells with
    | [] => return (none, [])
    | .list _ :: _ | .record _ :: _ => return (none, cells)
    | first :: rest => return (some (← Native.cText first), rest))
  return { index, members := (← cells.mapM (tableMembers table)).flatten }

def table : Method Unit := do
  let namedType ← Native.optionalNamed "type"
  let (type, name, rows) ← (do
    match ← Native.rest with
    | [type, name, rows] => return (some type, name, rows)
    | [name, rows] => return (namedType, name, rows)
    | _ => Native.fail .tableArguments : Native (Option Value × Value × Value))
  let name ← Native.text "look-up table name" name
  let type ← Native.optionalText "look-up table type" type
  let rows ← (← Native.items "look-up table rows" rows).toList.mapM fun row =>
    Method.ofNative (tableRow name row)
  request (Emit.table { type, name, rows })

def chainStyle : Option Value → Native ChainStyle
  | none => pure .elseIf
  | some v => do
    match ChainStyle.ofWord (← Native.text "chain style" v) with
    | .ok style => return style
    | .error error => refuse error

/-- A chain with one branch per item, whose condition and body are functions of the item. -/
def conditions (ev : Level) : Method Unit := do
  let items ← Native.items "Meta.ifs() items" (← Native.required "items")
  let style ← chainStyle (← Native.optional "style")
  let condition ← Native.required "condition"
  let body ← Native.required "body"
  let otherwise ← Native.optional "otherwise"
  let conditionText (item : Value) : EvalM String := do
    match ← ev.callWith condition [item] with
    | .text t => return t
    | v => cTextOf v
  let branch (item : Value) : EvalM Unit := discard (ev.callWith body [item])
  let otherwise : Option (EvalM Unit) := match otherwise with
    | none | some .nil => none
    | some f => some (discard (ev.callWith f []))
  chain Stop.ofRefusal style items.toList conditionText branch otherwise

/-- A section with a function as its body. -/
def sectioned (ev : Level) : Method Unit := do
  let text ← Native.text "section text" (← Native.required "text")
  let body ← Native.required "body"
  withSection text (discard (ev.callWith body []))

def run (ev : Level) (method : String) : Method Unit :=
  match method with
  | "line" => line
  | "blank" => liftM (write (·.blank))
  | "enter" => enter ev
  | "enums" => enums ev
  | "define" => define
  | "lut" => table
  | "ifs" => conditions ev
  | "section" => sectioned ev
  | other => Native.fail (.noGeneratorMethod other (suggestions other methods).head?)

/-- Call a method in a frame of its own. Left-over arguments are refused after the method has done
its work. -/
def call (ev : Level) (method : String) (args : Args) : EvalM Value :=
  withNative ("Meta." ++ method) do
    let ((), args) ← run ev method args
    match args.leftOver? with
    | some fault => fail fault
    | none => return .nil

end Generator

end Metagen.Eval
