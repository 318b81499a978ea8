import Metagen.Diagnostic.Basic
import Metagen.Text.Columns
import Metagen.Text.Search

/-! A diagnostic as it is shown to people: for each place the lines around it, numbered and with the
place marked, and what is wrong at the end. Line numbers share one width over all places, so that
the bars to their right form one column. -/

namespace Metagen

open Text

/-- How a part of a shown diagnostic is set off. -/
inductive Style where
  | dim
  | strong
  | marker
  | alarm
  deriving DecidableEq, Repr

/-- What a style is written as within a control sequence of a terminal. -/
def Style.number : Style → String
  | dim => "2"
  | strong => "1"
  | marker => "33"
  | alarm => "1;31"

def resetStyle : String := "\x1b[0m"

/-- A text in a style. Where a style inside the text ends, the outer one starts again. -/
def Style.apply (style : Style) (text : String) : String :=
  let start := "\x1b[" ++ style.number ++ "m"
  start ++ replaceAll resetStyle (resetStyle ++ start) text ++ resetStyle

/-- A text in a style, if there are styles. -/
def paint (color : Bool) (style : Style) (text : String) : String :=
  if color then style.apply text else text

namespace Place

def lineNumbers : Place → List Nat
  | source _ _ _ window => window.map (·.1)
  | native _ => []

/-- What marks a line: where it is, and what runs there. -/
def markerText (path : String) (line : Nat) (label : Option String) : String :=
  path ++ " : " ++ toString line ++
    match label with
    | some label => " : " ++ label
    | none => ""

end Place

namespace Diagnostic

def numberWidth (d : Diagnostic) : Nat :=
  (toString ((d.places.flatMap Place.lineNumbers).foldl max 0)).length

/-- Number of dots between two places. -/
def dividerWidth : Nat := 80

/-- A mark at the end of a line. -/
def mark (color : Bool) (text : String) : String := paint color .marker ("<- " ++ text)

/-- An empty line beside the numbers, with something in place of the bar. -/
def gutterLine (color : Bool) (width : Nat) (bar : String) : String :=
  spaces width ++ " " ++ paint color .dim bar

/-- One numbered line of a source, marked if it is the line of the place. -/
def windowLine (color : Bool) (width : Nat) (path : String) (line : Nat) (label : Option String)
    (number : Nat) (text : String) : String :=
  let shown := pad .right width (toString number) ++ " " ++ paint color .dim "|" ++ " " ++ text
  if number == line then
    paint color .strong shown ++ " " ++ mark color (Place.markerText path line label)
  else shown

/-- The lines of one place. A place without lines around it is a mark alone. -/
def placeLines (color : Bool) (width : Nat) : Place → List String
  | .source path line label [] =>
    [gutterLine color width "|" ++ " " ++ mark color (Place.markerText path line label)]
  | .source path line label window =>
    window.map fun (number, text) => windowLine color width path line label number text
  | .native label => [gutterLine color width "|" ++ " " ++ mark color label]

def dividerLines (color : Bool) (width : Nat) : List String :=
  [gutterLine color width ":",
    gutterLine color width (": " ++ .ofList (List.replicate dividerWidth '.')),
    gutterLine color width ":"]

def laterLines (color : Bool) (width : Nat) (places : List Place) : List String :=
  places.flatMap fun place => dividerLines color width ++ placeLines color width place

def contextLines (color : Bool) (width : Nat) : List Place → List String
  | [] => []
  | first :: rest =>
    gutterLine color width "|" :: placeLines color width first ++ laterLines color width rest
      ++ [gutterLine color width "|", ""]

def closingLines (color : Bool) (d : Diagnostic) : List String :=
  (paint color .alarm "[ERROR]" ++ " " ++ d.heading) ::
    match d.detail? with
    | some detail => ["        > " ++ detail]
    | none => []

def render (color : Bool) (d : Diagnostic) : String :=
  String.join ((contextLines color d.numberWidth d.places ++ closingLines color d).map (· ++ "\n"))

end Diagnostic

end Metagen
