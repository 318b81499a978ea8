/-! Finding, cutting and replacing parts of a text. Matches are taken leftmost first and do not
overlap. All functions are linear recursions on the characters with an accumulator, so that long
texts are no problem. -/

namespace Metagen.Text

/-- The characters before and after the first match of `part`. The characters already passed are
kept in reverse. -/
def cutAtFrom (part : List Char) (passed : List Char) : List Char → Option (List Char × List Char)
  | [] => if part.isEmpty then some (passed.reverse, []) else none
  | c :: cs =>
    if part.isPrefixOf (c :: cs) then some (passed.reverse, (c :: cs).drop part.length)
    else cutAtFrom part (c :: passed) cs

/-- The characters before and after the first match of `part`, if there is one. -/
def cutAt (part : List Char) (cs : List Char) : Option (List Char × List Char) :=
  cutAtFrom part [] cs

def occursIn (part s : String) : Bool := (cutAt part.toList s.toList).isSome

/-- Split at every match of a part that is not empty. `skip` counts the characters of a match still
to be passed over. -/
def splitAtFrom (part : List Char) (done : List (List Char)) (piece : List Char) (skip : Nat) :
    List Char → List (List Char)
  | [] => (piece.reverse :: done).reverse
  | c :: cs =>
    match skip with
    | skip + 1 => splitAtFrom part done piece skip cs
    | 0 =>
      if part.isPrefixOf (c :: cs) then
        splitAtFrom part (piece.reverse :: done) [] (part.length - 1) cs
      else splitAtFrom part done (c :: piece) 0 cs

/-- The pieces of a text between the matches of a separator that is not empty. -/
def splitAt (separator s : String) : List String :=
  (splitAtFrom separator.toList [] [] 0 s.toList).map .ofList

/-- Replace every match of `old`. An empty `old` matches before every character and at the end. -/
def replaceAll (old new s : String) : String :=
  if old.isEmpty then
    new ++ String.join (s.toList.map fun c => String.singleton c ++ new)
  else new.intercalate (splitAt old s)

end Metagen.Text
