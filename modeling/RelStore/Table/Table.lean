import RelStore.Files.Directory
import RelStore.Index.BPlusTree
import RelStore.Sql.Statement
import RelStore.Table.Record
import RelStore.Text.CharClass

/-!
# Tables

The live rows of a table by id, and the id for the next row. A table is what its row log makes
of an empty one: `Table.replay` applies the records of the log in order.
-/

namespace RelStore

open Text.Utf8 (Bytes)

/-- The live rows of a table. -/
structure Table where
  name : String
  rows : Index.BPlusTree RowId Row
  nextId : RowId

namespace Table

/-- A table without rows. -/
def empty (name : String) (order : Index.Order) : Table :=
  { name, rows := .empty order, nextId := 1 }

/-- Takes the next row id. -/
def allocate (t : Table) : RowId × Table := (t.nextId, { t with nextId := t.nextId + 1 })

/-- The greatest row id. -/
def greatestId : RowId := .ofNat (UInt64.size - 1)

/-- The id behind an id; the greatest has none behind it. -/
def idAfter (id : RowId) : RowId := if id = greatestId then id else id + 1

/-- Applies a record. The next row id stays above every id that was applied. -/
def apply (t : Table) (record : Record) : Table :=
  let nextId := max t.nextId (idAfter record.id)
  match record with
  | .insert id row | .update id row => { t with rows := (t.rows.insert id row).2, nextId }
  | .delete id => { t with rows := (t.rows.erase id).2, nextId }

/-- Applies the records on the lines of a log, the first of which has the given number. Blank
lines count and hold nothing. -/
def replay (t : Table) (line : Nat) : List Bytes → Except Error Table
  | [] => .ok t
  | bytes :: rest =>
    match Text.Utf8.decode? bytes with
    | none => .error .io
    | some text =>
      if text.all Text.isBlank then t.replay (line + 1) rest
      else match Record.read? text with
        | none => .error (.corruptedRecord t.name line)
        | some record => (t.apply record).replay (line + 1) rest

/-- The table whose row log has these contents. -/
def ofLog (name : String) (order : Index.Order) (log : Bytes) : Except Error Table :=
  (empty name order).replay 1 (Text.Utf8.lines log)

/-- The table whose row log stands in a directory; a missing log is an empty one. -/
def load (name : String) (order : Index.Order) (directory : Directory) : Except Error Table :=
  match directory.lookup name with
  | .missing => .ok (empty name order)
  | .refused => .error .io
  | .file log => ofLog name order log

/-- The row with an id. -/
def get? (t : Table) (id : RowId) : Option Row := t.rows.find? id

/-- The number of rows. -/
def size (t : Table) : Nat := t.rows.size

/-- All rows in the order of their ids. -/
def scan (t : Table) : List (RowId × Row) := t.rows.toList

/-- Whether a row satisfies a condition: it has a value for the column, and that is the
literal. Without a condition every row does. -/
def satisfies (row : Row) : Option Sql.Condition → Bool
  | none => true
  | some condition => row.get? condition.column == some condition.value

/-- The rows that satisfy a condition. -/
def matching (t : Table) (condition : Option Sql.Condition) : List (RowId × Row) :=
  t.scan.filter fun entry => satisfies entry.2 condition

/-- Whether some row has a value for the column. -/
def hasColumn (t : Table) (column : String) : Bool :=
  t.scan.any fun entry => entry.2.contains column

end Table

end RelStore
