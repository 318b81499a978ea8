import Metagen.Eval.Generator
import Metagen.Eval.Operators
import Metagen.Proofs.Steps

/-! Builtin functions, methods and operators run no script, and so they make no functions. -/

namespace Metagen.Eval

open Script

namespace Native

/-- Whatever its arguments are, the step makes and changes no functions. -/
def KeepsFunctions {α : Type} (action : Native α) : Prop :=
  ∀ args, Fixes Store.functions (action args)

namespace KeepsFunctions

variable {α β : Type}

theorem pure (a : α) : KeepsFunctions (pure a) := fun _ => .pure _

theorem bind {first : Native α} {second : α → Native β} (hFirst : first.KeepsFunctions)
    (hSecond : ∀ a, (second a).KeepsFunctions) : (first >>= second).KeepsFunctions :=
  fun args => (hFirst args).bind fun r => hSecond r.1 r.2

theorem map {first : Native α} (f : α → β) (h : first.KeepsFunctions) :
    KeepsFunctions (f <$> first) := by
  rw [map_eq_pure_bind]
  exact h.bind fun _ => pure _

theorem mapM {f : α → Native β} (h : ∀ a, (f a).KeepsFunctions) (items : List α) :
    KeepsFunctions (items.mapM f) := by
  induction items with
  | nil =>
      rw [List.mapM_nil]
      exact pure _
  | cons item rest ih =>
      rw [List.mapM_cons]
      exact (h item).bind fun _ => ih.bind fun _ => pure _

theorem fail (fault : Fault) : KeepsFunctions (fail fault : Native α) := fun _ _ => rfl

theorem read (f : Store → α) : (read f).KeepsFunctions := fun _ _ => rfl

theorem change {f : Store → Store} (h : ∀ s, (f s).functions = s.functions) :
    (change f).KeepsFunctions := fun _ s => h s

/-- A change that gives a result of its own. -/
theorem changing {f : Store → Store} {a : α} (h : ∀ s, (f s).functions = s.functions) :
    KeepsFunctions (Native.change f >>= fun _ => Pure.pure a) := (change h).bind fun _ => pure a

theorem make {f : Store → α × Store} (h : ∀ s, (f s).2.functions = s.functions) :
    (make f).KeepsFunctions := fun _ s => h s

theorem optional (name : String) : (optional name).KeepsFunctions := by
  intro args s
  unfold Native.optional
  split
  · rfl
  · rfl

theorem optionalNamed (name : String) : (optionalNamed name).KeepsFunctions := by
  intro args s
  unfold Native.optionalNamed
  split
  · rfl
  · rfl

theorem required (name : String) : (required name).KeepsFunctions := by
  intro args s
  unfold Native.required
  split
  · rfl
  · rfl

theorem rest : rest.KeepsFunctions := fun _ _ => rfl

theorem finish : finish.KeepsFunctions := by
  intro args s
  unfold Native.finish
  split
  · rfl
  · rfl

theorem text (what : String) (v : Value) : (text what v).KeepsFunctions := by
  cases v with
  | text t => exact pure _
  | _ => exact fail _

theorem int (what : String) (v : Value) : (int what v).KeepsFunctions := by
  cases v with
  | int n => exact pure _
  | _ => exact fail _

theorem items (what : String) (v : Value) : (items what v).KeepsFunctions := by
  cases v with
  | list cell => exact read _
  | _ => exact fail _

theorem fields (what : String) (v : Value) : (fields what v).KeepsFunctions := by
  cases v with
  | record cell => exact read _
  | _ => exact fail _

theorem optionalText (what : String) (v : Option Value) :
    (optionalText what v).KeepsFunctions := by
  unfold Native.optionalText
  split
  · exact pure _
  · exact pure _
  · exact (text what _).map _

/-- An argument that may be missing, and what is made of it if it is there. -/
theorem given (name : String) {found : Value → Native α} {missing : Native α}
    (hFound : ∀ v, (found v).KeepsFunctions) (hMissing : missing.KeepsFunctions) :
    KeepsFunctions (do
      match ← Native.optional name with
      | some v => found v
      | none => missing) := by
  refine (optional name).bind fun v => ?_
  cases v with
  | none => exact hMissing
  | some v => exact hFound v

theorem ofExcept (result : Except Fault α) : (ofExcept result).KeepsFunctions := by
  cases result with
  | ok a => exact pure a
  | error fault => exact fail fault

theorem render (v : Value) : (render v).KeepsFunctions := read _

theorem cText (v : Value) : (cText v).KeepsFunctions := by
  intro args s
  unfold Native.cText
  split
  · rfl
  · rfl

theorem length (v : Value) : (length v).KeepsFunctions := by
  cases v with
  | text t => exact pure _
  | list cell => exact read _
  | record cell => exact read _
  | _ => exact fail _

/-- A range is a list of numbers: no function is made. -/
theorem range : range.KeepsFunctions := by
  unfold Native.range
  refine (required _).bind fun start => (int _ start).bind fun first => ?_
  refine (given "stop" (fun v => ?_) (pure _)).bind fun bounds => ?_
  · exact (int _ v).bind fun _ => pure _
  refine (given "step" (fun v => int _ v) (pure _)).bind fun step => ?_
  have hMade : KeepsFunctions (Native.make (·.newList (rangeFrom bounds.2 step bounds.1 #[]))) :=
    make fun _ => rfl
  split
  · exact (fail _).bind fun _ => hMade
  · exact hMade

theorem toInt (v : Value) : (toInt v).KeepsFunctions := by
  unfold Native.toInt
  split
  · exact pure _
  · exact pure _
  · split
    · exact pure _
    · exact fail _
  · split
    · exact pure _
    · exact (render _).bind fun _ => fail _
  · exact (render _).bind fun _ => fail _

theorem toFloat (v : Value) : (toFloat v).KeepsFunctions := by
  unfold Native.toFloat
  split
  · exact pure _
  · exact pure _
  · split
    · exact pure _
    · exact fail _
  · exact (render _).bind fun _ => fail _

theorem extremum (function : Builtin) (wanted : Ordering) :
    (extremum function wanted).KeepsFunctions := by
  unfold Native.extremum
  refine bind ?_ fun candidates => ?_
  · refine rest.bind fun given => ?_
    split
    · exact read _
    · exact pure _
  · split
    · exact fail _
    · exact ofExcept _

theorem absolute (v : Value) : (absolute v).KeepsFunctions := by
  unfold Native.absolute
  split
  · split
    · exact pure _
    · exact fail _
  · exact pure _
  · exact fail _

theorem join : join.KeepsFunctions := by
  unfold Native.join
  refine (required _).bind fun given => (items _ given).bind fun list => ?_
  refine (KeepsFunctions.given "sep" (fun v => text _ v) (pure _)).bind fun separator => ?_
  exact (mapM render _).bind fun _ => pure _

/-- By induction over the rows: records are made of values that were there. -/
theorem tableRows (columns : List String) (number : Nat) (rows : List Value) :
    (tableRows columns number rows).KeepsFunctions := by
  induction number, rows using Native.tableRows.induct with
  | case1 number => exact pure _
  | case2 number rest ih => exact ih
  | case3 number row rest hRow ih =>
      have hRecord : ∀ entries : Array Value, KeepsFunctions (do
          let record ← Native.make (·.newRecord (.ofList (columns.zip entries.toList)))
          return record :: (← Native.tableRows columns (number + 1) rest)) := fun entries =>
        (make fun _ => rfl).bind fun _ => ih.bind fun _ => pure _
      rw [Native.tableRows]
      · refine (items _ row).bind fun entries => ?_
        split
        · exact (fail _).bind fun _ => hRecord entries
        · exact hRecord entries
      · exact hRow

theorem table : table.KeepsFunctions := by
  unfold Native.table
  refine (required _).bind fun header => (items _ header).bind fun names => ?_
  refine (mapM (text _) _).bind fun columns => rest.bind fun rows => ?_
  exact (tableRows columns 1 rows).bind fun _ => make fun _ => rfl

/-- No builtin function makes or changes a function; the cases are the functions one by one. -/
theorem apply (b : Builtin) : (apply b).KeepsFunctions := by
  cases b with
  | len => exact (required _).bind fun v => (length v).bind fun _ => pure _
  | range => exact range
  | str => exact (required _).bind fun v => (render v).bind fun _ => pure _
  | int => exact (required _).bind toInt
  | float => exact (required _).bind toFloat
  | upper => exact (required _).bind fun v => (text _ v).bind fun _ => pure _
  | lower => exact (required _).bind fun v => (text _ v).bind fun _ => pure _
  | join => exact join
  | keys => exact (required _).bind fun v => (fields _ v).bind fun _ => make fun _ => rfl
  | min => exact extremum _ _
  | max => exact extremum _ _
  | abs => exact (required _).bind absolute
  | cStr => exact (required _).bind fun v => (text _ v).bind fun _ => pure _
  | cRepr => exact (required _).bind fun v => (cText v).bind fun _ => pure _
  | table => exact table
  | fail => exact given "message" (fun v => (render v).bind fun _ => fail _) (fail _)
  | log =>
      refine rest.bind fun values => (mapM render values).bind fun texts => ?_
      exact changing fun _ => rfl
  | typeOf => exact (required _).bind fun _ => pure _

theorem finished {action : Native Value} (h : action.KeepsFunctions) : KeepsFunctions (do
    let result ← action
    Native.finish
    return result) := h.bind fun _ => finish.bind fun _ => pure _

theorem call (b : Builtin) : (call b).KeepsFunctions := (apply b).finished

/-- Methods of lists change lists alone. -/
theorem listMethod (cell : Nat) (method : String) : (listMethod cell method).KeepsFunctions := by
  unfold Native.listMethod
  split
  · exact (required _).bind fun _ => changing fun _ => rfl
  · refine (given "index" (fun v => int _ v) (pure _)).bind fun index => ?_
    refine (read _).bind fun list => ?_
    split
    · exact changing fun _ => rfl
    · exact fail _
  · refine (required _).bind fun v => (items _ v).bind fun more => ?_
    exact changing fun _ => rfl
  · exact (required _).bind fun _ => read _
  · refine (required _).bind fun v => (read _).bind fun found => ?_
    split
    · exact pure _
    · exact (read _).bind fun _ => fail _
  · exact changing fun _ => rfl
  · exact fail _

theorem textArgument (name : String) : (textArgument name).KeepsFunctions := by
  intro args
  have hText : KeepsFunctions (do
      Native.text (args.callee ++ "() argument") (← Native.required name)) :=
    (required name).bind fun v => text _ v
  exact hText args

theorem textList (parts : List String) : (textList parts).KeepsFunctions := make fun _ => rfl

theorem textMethod (t method : String) : (textMethod t method).KeepsFunctions := by
  unfold Native.textMethod
  split
  · exact pure _
  · exact pure _
  · exact pure _
  · refine given "sep" (fun v => ?_) (textList _)
    refine (text _ v).bind fun separator => ?_
    dsimp only
    split
    · exact (fail _).bind fun _ => textList _
    · exact textList _
  · exact (textArgument _).bind fun _ => (textArgument _).bind fun _ => pure _
  · exact (textArgument _).bind fun _ => pure _
  · exact (textArgument _).bind fun _ => pure _
  · exact (textArgument _).bind fun _ => pure _
  · exact fail _

/-- Methods of records only read. -/
theorem recordMethod (cell : Nat) (method : String) :
    (recordMethod cell method).KeepsFunctions := by
  unfold Native.recordMethod
  split
  · exact (read _).bind fun _ => textList _
  · exact make fun _ => rfl
  · refine (required _).bind fun v => (text _ v).bind fun _ => ?_
    exact (optional _).bind fun _ => read _
  · exact (required _).bind fun v => (text _ v).bind fun _ => read _
  · exact fail _

theorem callMethod (receiver : Value) (method : String) :
    (callMethod receiver method).KeepsFunctions := by
  cases receiver with
  | list cell => exact (listMethod cell method).finished
  | text t => exact (textMethod t method).finished
  | record cell => exact (recordMethod cell method).finished
  | _ => exact finished (fail _)

theorem textsOf (what : String) (v : Value) : (Generator.textsOf what v).KeepsFunctions := by
  cases v with
  | text t => exact pure _
  | list cell => exact (read _).bind fun _ => mapM (text what) _
  | _ => exact fail _

theorem enumMember (v : Value) : (Generator.enumMember v).KeepsFunctions := by
  cases v with
  | text t => exact pure _
  | list cell =>
      refine (read _).bind fun items => ?_
      split
      · exact (cText _).bind fun _ => pure _
      · exact fail _
  | _ => exact fail _

theorem countStyle (v : Option Value) : (Generator.countStyle v).KeepsFunctions := by
  unfold Generator.countStyle
  split
  · exact pure _
  · exact pure _
  · exact pure _
  · exact pure _
  · refine (text _ _).bind fun word => ?_
    split
    · exact pure _
    · exact fail _

theorem expansionOf (v : Option Value) : (Generator.expansionOf v).KeepsFunctions := by
  unfold Generator.expansionOf
  split
  · exact pure _
  · exact cText _
  · exact fail _

/-- Names with the C texts of what they stand for. -/
theorem namedTexts {make : String → String → β} (entries : List (String × Value)) :
    KeepsFunctions (entries.mapM fun (name, v) => return make name (← Native.cText v)) :=
  mapM (fun _ => (cText _).bind fun _ => pure _) _

theorem overloadOf (v : Option Value) : (Generator.overloadOf v).KeepsFunctions := by
  unfold Generator.overloadOf
  split
  · exact pure _
  · exact pure _
  · exact (read _).bind fun _ => namedTexts _
  · exact fail _

theorem tableMembers (table : String) (v : Value) :
    (Generator.tableMembers table v).KeepsFunctions := by
  cases v with
  | record cell => exact (read _).bind fun _ => namedTexts _
  | list cell =>
      refine (read _).bind fun items => ?_
      split
      · exact (cText _).bind fun _ => pure _
      · exact (cText _).bind fun _ => pure _
      · exact fail _
  | _ => exact fail _

theorem tableRow (table : String) (row : Value) :
    (Generator.tableRow table row).KeepsFunctions := by
  unfold Generator.tableRow
  refine bind ?_ fun cells => bind ?_ fun parts => ?_
  · split
    · exact pure _
    · exact (read _).bind fun _ => pure _
    · exact fail _
  · split
    · exact pure _
    · exact pure _
    · exact pure _
    · exact (cText _).bind fun _ => pure _
  · exact (mapM (tableMembers table) _).bind fun _ => pure _

theorem chainStyle (v : Option Value) : (Generator.chainStyle v).KeepsFunctions := by
  unfold Generator.chainStyle
  split
  · exact pure _
  · refine (text _ _).bind fun word => ?_
    split
    · exact pure _
    · exact fail _

/-- The arguments of a look-up table. -/
theorem tableArguments (namedType : Option Value) : KeepsFunctions (do
    match ← Native.rest with
    | [type, name, rows] => return (some type, name, rows)
    | [name, rows] => return (namedType, name, rows)
    | _ => Native.fail .tableArguments : Native (Option Value × Value × Value)) := by
  refine rest.bind fun values => ?_
  split
  · exact pure _
  · exact pure _
  · exact fail _

end KeepsFunctions

end Native

/-- The operation makes and changes no functions. -/
abbrev KeepsFunctions {α : Type} (action : EStateM Fault Store α) : Prop :=
  Fixes Store.functions action

namespace KeepsFunctions

theorem ofExcept (result : Except Fault Value) : KeepsFunctions (Operation.ofExcept result) := by
  cases result with
  | ok v => exact .pure v
  | error fault => exact .throw fault

theorem newList (items : Array Value) : KeepsFunctions (Operation.newList items) := fun _ => rfl

theorem arithmetic (op : BinaryOp) (a b : Value) : KeepsFunctions (arithmetic op a b) := by
  unfold Eval.arithmetic
  split
  · exact .pure _
  · exact Fixes.get.bind fun _ => newList _
  · split
    · exact .pure _
    · exact .throw _
  · refine Fixes.get.bind fun s => ?_
    dsimp only
    split
    · exact newList _
    · exact .throw _
  · exact ofExcept _
  · exact ofExcept _

/-- No operator makes or changes a function; only arithmetic on lists makes a cell. -/
theorem applyBinary (op : BinaryOp) (a b : Value) : KeepsFunctions (applyBinary op a b) := by
  cases op with
  | eq => exact Fixes.get.bind fun _ => .pure _
  | notEq => exact Fixes.get.bind fun _ => .pure _
  | less => exact ofExcept _
  | greater => exact ofExcept _
  | lessEq => exact ofExcept _
  | greaterEq => exact ofExcept _
  | _ => exact arithmetic _ a b

theorem negate (v : Value) : KeepsFunctions (negate v) := by
  cases v with
  | int n =>
      rw [Eval.negate]
      split
      · exact .pure _
      · exact .throw _
  | float x => exact .pure _
  | _ => exact .throw _

theorem fieldOf (object : Value) (field : String) : KeepsFunctions (fieldOf object field) := by
  cases object with
  | record cell =>
      refine Fixes.get.bind fun s => ?_
      split
      · exact .pure _
      · exact .throw _
  | _ => exact .throw _

theorem itemOf (object index : Value) : KeepsFunctions (itemOf object index) := by
  unfold Eval.itemOf
  split
  · refine Fixes.get.bind fun s => ?_
    dsimp only
    split
    · exact .pure _
    · exact .throw _
  · split
    · exact .pure _
    · exact .throw _
  · refine Fixes.get.bind fun s => ?_
    split
    · exact .pure _
    · exact .throw _
  · exact .throw _

theorem setField (object v : Value) (field : String) :
    KeepsFunctions (setField object field v) := by
  cases object with
  | record cell => exact .modify fun _ => rfl
  | _ => exact .throw _

theorem setItem (object index v : Value) : KeepsFunctions (setItem object index v) := by
  unfold Eval.setItem
  split
  · refine Fixes.get.bind fun s => ?_
    split
    · exact .modify fun _ => rfl
    · exact .throw _
  · exact .modify fun _ => rfl
  · exact .throw _

theorem lookUp (env : Env) (name : String) : KeepsFunctions (lookUp env name) := by
  unfold Eval.lookUp
  refine Fixes.get.bind fun s => ?_
  split
  · exact .pure _
  · split
    · exact .pure _
    · split
      · exact .pure _
      · exact .throw _

end KeepsFunctions

end Metagen.Eval
