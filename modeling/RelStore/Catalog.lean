import RelStore.Error
import RelStore.Files.Directory

/-!
# The catalog

The names of the tables in the order of their creation. They are kept in a file under a
reserved name, one name a line; a table of that name always exists and is no user table.
-/

namespace RelStore

open Text.Utf8 (Bytes)

/-- The user tables by name. -/
structure Catalog where
  names : OrderedMap String Unit := ∅

namespace Catalog

/-- The name of the catalog's own table and file. -/
def reserved : String := "System_UserTables"

/-- The tables in the order of their creation. -/
def tables (catalog : Catalog) : List String := catalog.names.keys

/-- The names that the lines of a text hold. -/
def namesOf (text : List Char) : List String :=
  ((text.splitOn '\n').filter (!·.isEmpty)).map String.ofList

/-- The catalog of these names; a name that comes again is known already. -/
def ofNames (names : List String) : Catalog :=
  { names := .ofList (names.map fun name => (name, ())) }

/-- The catalog in a directory; a missing file stands for no tables. -/
def load (directory : Directory) : Except Error Catalog :=
  match directory.lookup reserved with
  | .missing => .ok {}
  | .refused => .error .io
  | .file contents =>
    match Text.Utf8.decode? contents with
    | some text => .ok (ofNames (namesOf text))
    | none => .error .io

/-- What the file says of one table. -/
def record (name : String) : Bytes := Text.Utf8.ofString name ++ [10]

/-- Whether a table exists; the catalog's own always does. -/
def contains (catalog : Catalog) (name : String) : Bool :=
  name == reserved || catalog.names.contains name

/-- Adds a table and tells whether it is new. -/
def register (catalog : Catalog) (name : String) : Bool × Catalog :=
  (!catalog.names.contains name, { names := catalog.names.insert name () })

end Catalog

end RelStore
