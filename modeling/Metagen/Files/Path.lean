/-! Paths of files. A path is a text whose parts are separated by slashes. Empty parts say nothing,
and neither does a dot, except at the beginning of a relative path; two paths name the same file
when their parts are the same. -/

namespace Metagen.Path

/-- A part that says nothing where it does not come first. -/
def isIdle (part : String) : Bool := part.isEmpty || part == "."

def isAbsolute (path : String) : Bool := path.toList.head? == some '/'

/-- The parts of a path; that of the root is a slash. -/
def parts (path : String) : List String :=
  let pieces := (path.toList.splitOn '/').map String.ofList
  let named := pieces.filter fun part => !isIdle part
  if isAbsolute path then "/" :: named
  else if pieces.head? == some "." then "." :: named
  else named

def same (a b : String) : Bool := parts a == parts b

/-- A path under a directory. An absolute path stays as it is. -/
def join (dir path : String) : String :=
  if isAbsolute path || dir.isEmpty then path
  else if dir.toList.getLast? == some '/' then dir ++ path
  else dir ++ "/" ++ path

/-- The path of the directory that a path is in; a path of one part is in no other one. -/
def parent? (path : String) : Option String :=
  let dir := (parts path).dropLast
  if dir.isEmpty then none
  else if dir.head? == some "/" then some ("/" ++ "/".intercalate dir.tail)
  else some ("/".intercalate dir)

/-- The name of the file that a path names; a path to a directory above has none. -/
def fileName? (path : String) : Option String :=
  match (parts path).getLast? with
  | some part => if part == "/" || part == "." || part == ".." then none else some part
  | none => none

/-- The extension of a name: what follows its last dot, unless nothing comes before it. -/
def nameExtension? (name : String) : Option String :=
  let tail := name.toList.reverse.takeWhile (· != '.')
  if tail.length + 1 < name.length then some (.ofList tail.reverse) else none

def extension? (path : String) : Option String := (fileName? path).bind nameExtension?

end Metagen.Path
