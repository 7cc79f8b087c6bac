import RelStore.Engine.State
import RelStore.Sql.Statement.Opening

/-!
# A database without files

What the statements mean, said of lists: the tables in the order of their creation, each with
its rows in the order of their insertion. Nothing here has row ids, logs, indexes or locks.

`Machine` adds the one thing of a sink that shows in the answers: which of its calls fail. A
statement is executed on the database first; then the files that it writes are tried in order,
and if one of them fails the database stays as it was.
-/

namespace RelStore

open Sql (Statement Action Condition)

/-- Tables of rows. -/
structure Database where
  tables : OrderedMap String (List Row) := ∅

namespace Database

/-- Whether a row has the column of a condition, with the literal as its value. Without a
condition every row will do. -/
def Matches : Option Condition → Row → Bool
  | none, _ => true
  | some condition, row =>
    match row.get? condition.column with
    | some value => value = condition.value
    | none => false

/-- What a row shows of some columns. -/
def shown (columns : List String) (row : Row) : List String :=
  columns.map fun column =>
    match row.get? column with
    | some value => value
    | none => "NULL"

/-- The first of the columns that none of the rows has. -/
def unknownColumn? (columns : List String) (rows : List Row) : Option String :=
  columns.find? fun column => rows.all fun row => !row.contains column

/-- What an action on a table with these rows answers, and the rows after it. -/
def act (table : String) (rows : List Row) : Action → Except Error (QueryResult × List Row)
  | .createTable .. => .error (.duplicateTable table)
  | .insert columns values =>
    .ok ({ affected := 1, message := some "1 row(s) inserted" },
      rows ++ [.ofList (columns.zip values)])
  | .select columns condition =>
    match if rows = [] then none else unknownColumn? columns rows with
    | some column => .error (.columnNotFound column table)
    | none => .ok ({ columns, rows := (rows.filter (Matches condition)).map (shown columns) }, rows)
  | .delete condition =>
    let count := (rows.filter (Matches condition)).length
    .ok ({ affected := count, message := some (Text.Decimal.text count ++ " row(s) deleted") },
      rows.filter (!Matches condition ·))
  | .update assignments condition =>
    let count := (rows.filter (Matches condition)).length
    .ok ({ affected := count, message := some (Text.Decimal.text count ++ " row(s) updated") },
      rows.map fun row =>
        if Matches condition row then row.insertMany assignments.entries else row)

/-- What a statement answers, and the database after it. -/
def execute (db : Database) (s : Statement) : Except Error (QueryResult × Database) :=
  match s.action, db.tables.get? s.table with
  | .createTable .., none =>
    if s.table = Catalog.reserved then .error (.duplicateTable s.table)
    else .ok ({ message := some ("Table '" ++ s.table ++ "' created") },
      ⟨db.tables.insert s.table []⟩)
  | _, none => .error (.unknownTable s.table)
  | action, some rows =>
    (act s.table rows action).map fun (result, rows) => (result, ⟨db.tables.insert s.table rows⟩)

/-- The answer to a query. A query that cannot be read and a statement that fails leave the
database as it is. -/
def answer (db : Database) (sql : String) : Except Error QueryResult × Database :=
  match Statement.ofText sql with
  | .error e => (.error e, db)
  | .ok s =>
    match db.execute s with
    | .error e => (.error e, db)
    | .ok (result, db) => (.ok result, db)

end Database

/-! ## Files that may refuse -/

/-- What a sink has to do with the answers: the calls that fail, the calls made so far, and the
names that files can have. -/
structure Port where
  faults : Faults
  targetCalls : Nat
  writeCalls : Nat
  fits : String → Bool

namespace Port

/-- Tries to write to a file: it is made the target, and then the bytes are appended. -/
def append (p : Port) (name : String) : Except Error Unit × Port :=
  let targeted := { p with targetCalls := p.targetCalls + 1 }
  if p.faults.target p.targetCalls || !p.fits name then (.error .io, targeted)
  else
    let written := { targeted with writeCalls := p.writeCalls + 1 }
    if p.faults.write p.writeCalls then (.error (.ioFailure name), written) else (.ok (), written)

/-- Tries to write to files in order, up to the first that fails. -/
def appendAll (p : Port) : List String → Except Error Unit × Port
  | [] => (.ok (), p)
  | name :: rest =>
    match p.append name with
    | (.ok (), p) => p.appendAll rest
    | (.error e, p) => (.error e, p)

end Port

/-- The files that a statement writes when it has this answer, in order. -/
def targets (s : Statement) (result : QueryResult) : List String :=
  match s.action with
  | .createTable .. => [s.table, Catalog.reserved]
  | .insert .. => [s.table]
  | .select .. => []
  | .delete _ | .update .. => if result.affected = 0 then [] else [s.table]

/-- A database whose changes count only if its files take them. -/
structure Machine where
  database : Database
  port : Port

namespace Machine

/-- What a statement answers, and the machine after it. -/
def execute (m : Machine) (s : Statement) : Except Error QueryResult × Machine :=
  match m.database.execute s with
  | .error e => (.error e, m)
  | .ok (result, database) =>
    match m.port.appendAll (targets s result) with
    | (.ok (), port) => (.ok result, ⟨database, port⟩)
    | (.error e, port) => (.error e, { m with port })

/-- The answer to a query. -/
def answer (m : Machine) (sql : String) : Except Error QueryResult × Machine :=
  match Statement.ofText sql with
  | .error e => (.error e, m)
  | .ok s => m.execute s

end Machine

end RelStore
