/-! Why a request for generated text is refused. -/

namespace Metagen.Emission

inductive EmissionError where
  | emptyEnum (enumeration : String)
  | duplicateEnumMember (enumeration member : String)
  | unknownCountStyle (style : String)
  /-- Overloading without a parameter list. -/
  | overloadWithoutParams (name : String)
  /-- Overloading on something that is no parameter. -/
  | overloadKeyNotParam (name key params : String)
  /-- An overload value that cannot be part of a name. -/
  | invalidOverloadValue (name value : String)
  /-- Another overload of the same macro has other parameters or keys. -/
  | overloadMismatch (name : String)
  /-- Another directive overloads the macro. -/
  | overloadOwned (name owner : String)
  | emptyTable (table : String)
  | duplicateTableIndex (table index : String)
  | duplicateTableField (table field : String)
  /-- A member with a type of its own in a table that has one. -/
  | typedTableMember (table field : String)
  | malformedTable (table reason : String)
  | unknownChainStyle (style : String)
  /-- A final else body where the branches do not form a chain. -/
  | otherwiseWithoutChain (style : String)
  deriving DecidableEq, Repr

def EmissionError.message : EmissionError → String
  | emptyEnum name => "enumeration '" ++ name ++ "' has no members"
  | duplicateEnumMember enumeration member =>
    "enumeration '" ++ enumeration ++ "' has duplicate member '" ++ member ++ "'"
  | unknownCountStyle style =>
    "unknown enumeration count style '" ++ style ++ "'; expected none, define, enum or constexpr"
  | overloadWithoutParams name => "overloading macro '" ++ name ++ "' needs a parameter list"
  | overloadKeyNotParam name key params =>
    "overloading macro '" ++ name ++ "' on '" ++ key ++ "', which is not in its parameter list ("
      ++ params ++ ")"
  | invalidOverloadValue name value =>
    "overload value '" ++ value ++ "' of macro '" ++ name ++ "' is not an identifier fragment"
  | overloadMismatch name =>
    "cannot overload macro '" ++ name ++ "' with differing parameters or overloaded keys"
  | overloadOwned name owner =>
    "macro '" ++ name ++ "' is already overloaded by the directive at " ++ owner
  | emptyTable table => "look-up table '" ++ table ++ "' has no rows"
  | duplicateTableIndex table index =>
    "look-up table '" ++ table ++ "' has duplicate index of '" ++ index ++ "'"
  | duplicateTableField table field =>
    "look-up table '" ++ table ++ "' has an entry with duplicate field of '" ++ field ++ "'"
  | typedTableMember table field =>
    "look-up table '" ++ table ++ "' has an explicit type, so member '" ++ field
      ++ "' cannot carry its own type"
  | malformedTable table reason => "look-up table '" ++ table ++ "': " ++ reason
  | unknownChainStyle style =>
    "unknown if-statement style '" ++ style ++ "'; expected 'if', 'else if', '#if' or '#elif'"
  | otherwiseWithoutChain style =>
    "an 'otherwise' body needs the 'else if' or '#elif' style, not '" ++ style ++ "'"

end Metagen.Emission
