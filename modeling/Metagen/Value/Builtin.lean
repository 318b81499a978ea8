/-! The functions that every script can call without defining them. -/

namespace Metagen

/-- A function that is always there. -/
inductive Builtin where
  | len | range | str | int | float | upper | lower | join | keys | min | max | abs | cStr | cRepr
  | table | fail | log | typeOf
  deriving DecidableEq, Repr

namespace Builtin

def all : List Builtin :=
  [len, range, str, int, float, upper, lower, join, keys, min, max, abs, cStr, cRepr, table, fail,
    log, typeOf]

/-- The name by which scripts call a function. -/
def name : Builtin → String
  | len => "len"
  | range => "range"
  | str => "str"
  | int => "int"
  | float => "float"
  | upper => "upper"
  | lower => "lower"
  | join => "join"
  | keys => "keys"
  | min => "min"
  | max => "max"
  | abs => "abs"
  | cStr => "c_str"
  | cRepr => "c_repr"
  | table => "table"
  | fail => "fail"
  | log => "log"
  | typeOf => "type_of"

def ofName? (s : String) : Option Builtin := all.find? (·.name == s)

end Builtin

end Metagen
