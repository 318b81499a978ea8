import Metagen.Emission.Error
import Metagen.Script.Tree

/-! Why a script fails: the causes, the kind that each belongs to, and what is said about it; and
the trace, which tells what was running. -/

namespace Metagen.Eval

open Script Emission

inductive FaultKind where
  /-- An unknown name. -/
  | name
  /-- An unknown field or method. -/
  | attribute
  /-- A missing key, or an index out of range. -/
  | key
  /-- An argument of the right type that cannot be used. -/
  | value
  | assertion
  /-- An operand or argument of the wrong type. -/
  | type
  | other
  deriving DecidableEq, Repr

/-- Statements that may stand in loops only. -/
inductive LoopWord where
  | leave
  | next
  deriving DecidableEq, Repr

/-- How such a statement is written. -/
def LoopWord.spelling : LoopWord → String
  | leave => "break"
  | next => "continue"

/-- The greatest number of calls in progress. -/
def maxCallDepth : Nat := 64

/-- Causes of failures. Types of values are given by their names. -/
inductive Fault where
  | unboundName (name : String)
  /-- Assignment to a name that is not bound. -/
  | unboundTarget (name : String)
  | noField (type field : String)
  | noMethod (type method : String)
  /-- A method of the generator is used without a call. -/
  | generatorField (field : String)
  | noGeneratorMethod (method : String) (suggestion : Option String)
  | cannotSetField (field type : String)
  | noKey (key : String)
  | listIndex (index : Int)
  | textIndex (index : Int)
  | popIndex (index : Int)
  | unequalRow (row entries columns : Nat)
  /-- The text is that of the value. -/
  | notInList (shown : String)
  | zeroStep
  | badInt (text : String)
  | badFloat (text : String)
  | noInt (shown : String)
  | noFloat (shown : String)
  | emptyExtremum (function : String)
  | emptySeparator
  | unorderedNumber
  | noCText (type : String)
  | absOverflow
  | negationOverflow
  | overflow (op : BinaryOp)
  | divisionByZero
  | repetitionTooLarge
  | badMemberPair
  | emission (error : EmissionError)
  | assertion (message : String)
  | missingArgument (callee name : String)
  | unexpectedArgument (callee name : String)
  | extraArguments (callee : String) (count : Nat)
  /-- Something that must be of one type is of another. -/
  | wrongType (what expected type : String)
  | unordered (left right : String)
  | noLength (type : String)
  | notIterable (type : String)
  | cannotAssignInto (type index : String)
  | cannotIndex (type index : String)
  | cannotNegate (type : String)
  | notCallable (type : String)
  | unsupportedOperands (op : BinaryOp) (left right : String)
  | macroArguments
  | tableArguments
  /-- A script asks to fail. -/
  | failed (message : String)
  | callDepth
  | outsideLoop (word : LoopWord)
  | strayLoopControl
  | invalidTarget
  deriving DecidableEq, Repr

namespace Fault

def kind : Fault → FaultKind
  | unboundName _ | unboundTarget _ => .name
  | noField .. | noMethod .. | generatorField _ | noGeneratorMethod .. | cannotSetField .. =>
    .attribute
  | noKey _ | listIndex _ | textIndex _ | popIndex _ => .key
  | unequalRow .. | notInList _ | zeroStep | badInt _ | badFloat _ | noInt _ | noFloat _
  | emptyExtremum _ | emptySeparator | unorderedNumber | noCText _ | absOverflow | negationOverflow
  | overflow _ | divisionByZero | repetitionTooLarge | badMemberPair | emission _ => .value
  | assertion _ => .assertion
  | missingArgument .. | unexpectedArgument .. | extraArguments .. | wrongType .. | unordered ..
  | noLength _ | notIterable _ | cannotAssignInto .. | cannotIndex .. | cannotNegate _
  | notCallable _ | unsupportedOperands .. | macroArguments | tableArguments => .type
  | failed _ | callDepth | outsideLoop _ | strayLoopControl | invalidTarget => .other

def message : Fault → String
  | unboundName name => "name '" ++ name ++ "' is not defined"
  | unboundTarget name => "name '" ++ name ++ "' is not defined; declare it with 'let' first"
  | noField type field => type ++ " has no field '" ++ field ++ "'"
  | noMethod type method => type ++ " has no method '" ++ method ++ "'"
  | generatorField field => "'Meta." ++ field ++ "' is not a value; call it as a method"
  | noGeneratorMethod method suggestion =>
    "Meta has no method '" ++ method ++ "'" ++
      match suggestion with
      | some best => "; did you mean '" ++ best ++ "'?"
      | none => ""
  | cannotSetField field type => "cannot set field '" ++ field ++ "' of " ++ type
  | noKey key => "no key '" ++ key ++ "' in record"
  | listIndex index => "list index " ++ toString index ++ " out of range"
  | textIndex index => "string index " ++ toString index ++ " out of range"
  | popIndex index => "pop index " ++ toString index ++ " out of range"
  | unequalRow row entries columns =>
    "Row " ++ toString row ++ " has " ++ toString entries ++ " entries but the header defines "
      ++ toString columns ++ " columns."
  | notInList shown => shown ++ " is not in list"
  | zeroStep => "range() step must not be zero"
  | badInt text => "invalid int literal \"" ++ text ++ "\""
  | badFloat text => "invalid float literal \"" ++ text ++ "\""
  | noInt shown => "cannot convert " ++ shown ++ " to an int"
  | noFloat shown => "cannot convert " ++ shown ++ " to a float"
  | emptyExtremum function => function ++ "() of an empty sequence"
  | emptySeparator => "empty separator"
  | unorderedNumber => "cannot order NaN"
  | noCText type => "a " ++ type ++ " has no C representation"
  | absOverflow => "integer overflow in abs()"
  | negationOverflow => "integer overflow"
  | overflow op => "integer overflow in '" ++ op.spelling ++ "'"
  | divisionByZero => "division by zero"
  | repetitionTooLarge => "repetition too large"
  | badMemberPair => "an enumeration member pair is [name, value]"
  | emission error => error.message
  | assertion message => message
  | missingArgument callee name => callee ++ "() missing argument '" ++ name ++ "'"
  | unexpectedArgument callee name => callee ++ "() got an unexpected argument '" ++ name ++ "'"
  | extraArguments callee count =>
    callee ++ "() got " ++ toString count ++ " more argument(s) than it takes"
  | wrongType what expected type => what ++ " must be " ++ expected ++ ", not " ++ type
  | unordered left right => "cannot order " ++ left ++ " and " ++ right
  | noLength type => type ++ " has no length"
  | notIterable type => "cannot iterate over " ++ type
  | cannotAssignInto type index => "cannot assign into " ++ type ++ " with a " ++ index ++ " index"
  | cannotIndex type index => "cannot index " ++ type ++ " with " ++ index
  | cannotNegate type => "cannot negate " ++ type
  | notCallable type => type ++ " is not callable"
  | unsupportedOperands op left right =>
    "unsupported operands for '" ++ op.spelling ++ "': " ++ left ++ " and " ++ right
  | macroArguments => "Meta.define() takes a name, optional parameters and an expansion"
  | tableArguments => "Meta.lut() takes an optional type, a name and rows"
  | failed message => message
  | callDepth => "maximum call depth of " ++ toString maxCallDepth ++ " exceeded"
  | outsideLoop word => "'" ++ word.spelling ++ "' outside a loop"
  | strayLoopControl => "loop control outside a loop"
  | invalidTarget => "invalid assignment target"

end Fault

/-- Where something runs: in the script with this number, or outside all scripts. -/
inductive Site where
  | unit (number : Nat)
  | native
  deriving DecidableEq, Repr

/-- Something that is running. The top level of a script has no label. -/
structure Frame where
  site : Site
  line : Nat
  label : Option String
  deriving DecidableEq, Repr

/-- A failure, and what was running when it arose, the innermost first. -/
structure EvalError where
  fault : Fault
  trace : List Frame := []
  deriving DecidableEq, Repr

end Metagen.Eval
