import RelStore.Files.Path
import RelStore.OrderedMap
import RelStore.Text.Utf8

/-!
# Directories and what stands in them

All files and directories are kept by their locations, and a directory is one of these
locations together with all that stands anywhere. A path is followed from the directory name
by name (`Directory.follow`), so that several paths can lead to one file, and a path through a
directory that is missing leads nowhere even if it comes back from there. Reading a file tells
one that is missing from one that cannot be read.
-/

namespace RelStore

open Text.Utf8 (Bytes)

/-- The names that lead somewhere from the root of all files. -/
abbrev Location := List String

/-- What stands at a location. -/
inductive Entry where
  | file (contents : Bytes)
  | directory
deriving DecidableEq

/-- What a path leads to. -/
inductive Place where
  | directory (location : Location)
  | file (location : Location) (contents : Bytes)
  /-- Nothing stands there, in a directory that is there. -/
  | free (location : Location)
  /-- Something on the way is missing. -/
  | missing
  /-- A file is in the way, or the path is none that can be followed. -/
  | refused
deriving DecidableEq

/-- What reading a file finds. -/
inductive Lookup where
  | missing
  | file (contents : Bytes)
  /-- Something stands there or is in the way, and nothing can be read. -/
  | refused
deriving DecidableEq

/-- A directory among all files. It may be missing itself; then it holds nothing. -/
structure Directory where
  /-- All files and directories but the root, which is always there. -/
  entries : OrderedMap Location Entry := ∅
  location : Location := []
  /-- The bytes that every path in the directory has in front of it. They count as its own. -/
  lead : Nat := 0

namespace Directory

/-- The root of all files. -/
def root : Directory := {}

/-- What stands at a location. -/
def get? (d : Directory) (location : Location) : Option Entry :=
  if location = [] then some .directory else d.entries.get? location

/-! ## Following a path -/

/-- Where one name leads from a directory that is there. The root is above itself. -/
def step (d : Directory) (here : Location) (name : String) : Place :=
  if name = "." then .directory here
  else if name = ".." then .directory here.dropLast
  else if Path.nameLimit < name.utf8ByteSize then .refused
  else match d.get? (here ++ [name]) with
    | some .directory => .directory (here ++ [name])
    | some (.file contents) => .file (here ++ [name]) contents
    | none => .free (here ++ [name])

/-- Where names lead from a directory that is there, one after the other. -/
def follow (d : Directory) (here : Location) : List String → Place
  | [] => .directory here
  | name :: rest =>
    match d.step here name with
    | .directory there => d.follow there rest
    | .file there contents => if rest = [] then .file there contents else .refused
    | .free there => if rest = [] then .free there else .missing
    | .missing => .missing
    | .refused => .refused

/-- Where names lead from a location. -/
def placeFrom (d : Directory) (here : Location) (names : List String) : Place :=
  if d.get? here = some .directory then d.follow here names else .missing

/-- Where a path begins. -/
def origin (d : Directory) (path : String) : Location :=
  if Path.isAbsolute path then [] else d.location

/-- The size of a path, together with what it has in front of it. -/
def pathSize (d : Directory) (path : String) : Nat :=
  if Path.isAbsolute path then path.utf8ByteSize else d.lead + path.utf8ByteSize

/-- Whether a path can be followed at all: it is not too long and holds no NUL. -/
def Admits (d : Directory) (path : String) : Prop :=
  '\x00' ∉ path.toList ∧ d.pathSize path ≤ Path.sizeLimit

instance (d : Directory) (path : String) : Decidable (d.Admits path) := by
  unfold Admits; infer_instance

/-- Where a path leads. One that asks for a directory leads to no file. -/
def place (d : Directory) (path : String) : Place :=
  if d.Admits path then
    match d.placeFrom (d.origin path) (Path.names path), Path.endsInSlash path with
    | .file .., true => .refused
    | place, _ => place
  else .refused

theorem get?_of_step_eq_file {d : Directory} {here location : Location} {name : String}
    {contents : Bytes} (h : d.step here name = .file location contents) :
    d.get? location = some (.file contents) := by
  unfold step at h; grind

theorem get?_of_step_eq_free {d : Directory} {here location : Location} {name : String}
    (h : d.step here name = .free location) : d.get? location = none := by
  unfold step at h; grind

theorem get?_of_follow_eq_file {d : Directory} {here location : Location} {names : List String}
    {contents : Bytes} (h : d.follow here names = .file location contents) :
    d.get? location = some (.file contents) := by
  fun_induction follow d here names <;> grind [get?_of_step_eq_file]

theorem get?_of_follow_eq_free {d : Directory} {here location : Location} {names : List String}
    (h : d.follow here names = .free location) : d.get? location = none := by
  fun_induction follow d here names <;> grind [get?_of_step_eq_free]

/-- A file that a path leads to stands there, and the path does not ask for a directory. -/
theorem get?_of_place_eq_file {d : Directory} {path : String} {location : Location}
    {contents : Bytes} (h : d.place path = .file location contents) :
    d.get? location = some (.file contents) ∧ Path.endsInSlash path = false := by
  unfold place placeFrom at h
  grind [get?_of_follow_eq_file]

/-- Nothing stands where a path leads to a free place. -/
theorem get?_of_place_eq_free {d : Directory} {path : String} {location : Location}
    (h : d.place path = .free location) : location ≠ [] ∧ d.get? location = none := by
  have he : d.get? location = none := by
    unfold place placeFrom at h
    grind [get?_of_follow_eq_free]
  exact ⟨(fun h => by subst h; cases (he : some _ = none)), he⟩

/-- The directory that a path leads to. -/
def enter? (d : Directory) (path : String) : Option Directory :=
  match d.place path with
  | .directory location => some { d with location, lead := d.pathSize (Path.closed path) }
  | _ => none

/-- The files of one directory as they are seen from another. -/
def seenFrom (d viewpoint : Directory) : Directory := { viewpoint with entries := d.entries }

/-! ## Reading -/

/-- What reading the file at a path finds. -/
def lookup (d : Directory) (path : String) : Lookup :=
  match d.place path with
  | .file _ contents => .file contents
  | .free _ | .missing => .missing
  | .directory _ | .refused => .refused

/-- The names in a directory and what stands there. -/
def listingAt (d : Directory) (location : Location) : List (String × Entry) :=
  d.entries.entries.filterMap fun (there, entry) =>
    if there.dropLast = location then there.getLast?.map (·, entry) else none

/-- The names in the directory and what stands there. -/
def listing (d : Directory) : List (String × Entry) := d.listingAt d.location

end Directory

end RelStore
