import Metagen.Files.Path

/-! Files held in memory. A tree has directories and files, each at a location, which is the list of
names that lead to it from the root. Paths are followed from the working directory, part by part. -/

namespace Metagen

/-- Names from the root to a directory or a file. -/
abbrev Location := List String

structure FileTree where
  /-- The working directory. -/
  working : Location := ["work"]
  directories : List Location := [[], ["work"]]
  files : List (Location × String) := []
  deriving DecidableEq, Repr

namespace FileTree

/-- Longest name, in bytes. -/
def maxName : Nat := 255

/-- Length in bytes that no path reaches. -/
def maxPath : Nat := 4096

/-- A path that can lead anywhere at all. -/
def isPossible (path : String) : Bool :=
  !path.isEmpty && path.utf8ByteSize < maxPath && !path.toList.contains '\x00'

def isName (part : String) : Bool := part.utf8ByteSize ≤ maxName

def hasDirectory (t : FileTree) (l : Location) : Bool := t.directories.contains l

def fileAt? (t : FileTree) (l : Location) : Option String := t.files.lookup l

/-- Where the parts of a path lead from a directory, through directories only. -/
def follow (t : FileTree) : Location → List String → Option Location
  | l, [] => some l
  | l, part :: rest =>
    if part == "/" then follow t [] rest
    else if part == "." then follow t l rest
    else if part == ".." then follow t l.dropLast rest
    else if t.hasDirectory (l ++ [part]) then follow t (l ++ [part]) rest
    else none

/-- The location of a file that a path leads to, whether there is one or not. Its directory exists,
and the path ends in a name. -/
def locate (t : FileTree) (path : String) : Option Location :=
  let pieces := (path.toList.splitOn '/').map String.ofList
  match pieces.getLast? with
  | some name =>
    if isPossible path && !Path.isIdle name && name != ".." && isName name then
      (t.follow t.working (Path.parts path).dropLast).map (· ++ [name])
    else none
  | none => none

def read (t : FileTree) (path : String) : Option String := (t.locate path).bind t.fileAt?

/-- Write a file in a directory that exists, and where no directory is. -/
def write (t : FileTree) (path text : String) : Option FileTree :=
  (t.locate path).bind fun l =>
    if t.hasDirectory l then none
    else some { t with files := t.files.filter (·.1 != l) ++ [(l, text)] }

/-- Make the directories that the parts of a path lead through, as far as they are missing. -/
def makeFrom (t : FileTree) : Location → List String → Option FileTree
  | _, [] => some t
  | l, part :: rest =>
    if part == "/" then makeFrom t [] rest
    else if part == "." then makeFrom t l rest
    else if part == ".." then makeFrom t l.dropLast rest
    else if t.hasDirectory (l ++ [part]) then makeFrom t (l ++ [part]) rest
    else if (t.fileAt? (l ++ [part])).isSome || !isName part then none
    else makeFrom { t with directories := (l ++ [part]) :: t.directories } (l ++ [part]) rest

def makeDirectory (t : FileTree) (path : String) : Option FileTree :=
  if isPossible path then t.makeFrom t.working (Path.parts path) else none

/-- The path of a location from the working directory, if it is below. -/
def relative? (t : FileTree) (l : Location) : Option String :=
  if t.working.isPrefixOf l then some ("/".intercalate (l.drop t.working.length)) else none

/-- The files below the working directory, with their paths from there, in order of the paths. -/
def listing (t : FileTree) : List (String × String) :=
  let below := t.files.filterMap fun (l, text) => (t.relative? l).map (·, text)
  below.mergeSort fun a b => a.1 ≤ b.1

end FileTree

end Metagen
