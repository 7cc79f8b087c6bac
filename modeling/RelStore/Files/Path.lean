/-!
# Written paths

A path is written as names with slashes between them. A slash at its start begins it at the
root of all files, and one at its end asks for a directory. Of the names, `.` stays where it
is and `..` goes one directory up; where a path leads is decided by what stands on its way
(`RelStore.Files.Directory`).
-/

namespace RelStore.Path

/-- The longest name of a file or a directory, in bytes. -/
def nameLimit : Nat := 255

/-- The longest path, in bytes. -/
def sizeLimit : Nat := 4095

/-- The names on a path; slashes next to each other have none between them. -/
def names (path : String) : List String :=
  ((path.toList.splitOn '/').filter (!·.isEmpty)).map String.ofList

/-- Whether a path begins at the root of all files. -/
def isAbsolute (path : String) : Bool := path.toList.head? == some '/'

/-- Whether a path asks for a directory. -/
def endsInSlash (path : String) : Bool := path.toList.getLast? == some '/'

/-- A path with a slash at its end. -/
def closed (path : String) : String := if endsInSlash path then path else path ++ "/"

/-- A path as it is reached through a directory. -/
def join (directory path : String) : String :=
  if isAbsolute path then path else closed directory ++ path

/-- The names above some names, the nearest first. Single dots do not count, so nothing stands
above the names of `./a` or `a/.`. -/
def above (names : List String) : List (List String) :=
  let steps := names.filter (· ≠ ".")
  ((List.range steps.length).drop 1).reverse.map (steps.take ·)

end RelStore.Path
