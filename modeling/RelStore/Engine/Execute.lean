import RelStore.Engine.State
import RelStore.Sql.Statement.Opening

/-!
# Executing statements

Every statement first locks its table and then checks the catalog. A change goes to the file
first, all records of a statement in one write, and reaches the rows in memory only if the file
took it.
-/

namespace RelStore.Engine

open Sql (Statement Action Condition)

/-- The value shown for a column that a row has no value for. -/
def nullText : String := "NULL"

/-- Creates a table: an empty log for it, its name in the catalog's file, its name in the
catalog, and no rows. -/
def createTable (name : String) : EngineM QueryResult := withLock name do
  if (← get).catalog.contains name then throw (.duplicateTable name)
  append name []
  append Catalog.reserved (Catalog.record name)
  modify fun e => { e with catalog := (e.catalog.register name).2 }
  setTable name (.empty name (← get).order)
  return { message := some ("Table '" ++ name ++ "' created") }

/-- Inserts a row under the next row id of the table. -/
def insert (name : String) (columns values : List String) : EngineM QueryResult :=
  withLock name do
    ensureUserTable name
    let row : Row := .ofList (columns.zip values)
    let (id, t) := (← table name).allocate
    setTable name t
    let record : Record := .insert id row
    append name record.encode
    setTable name (t.apply record)
    return { affected := 1, message := some "1 row(s) inserted" }

/-- The values of a row for some columns. -/
def project (columns : List String) (row : Row) : List String :=
  columns.map fun column => (row.get? column).getD nullText

/-- Selects the rows that satisfy a condition. A column is refused if the table has rows but
none of them has a value for it. -/
def select (name : String) (columns : List String) (condition : Option Condition) :
    EngineM QueryResult := withLock name do
  ensureUserTable name
  let t ← table name
  if t.size ≠ 0 then
    if let some column := columns.find? (!t.hasColumn ·) then
      throw (.columnNotFound column name)
  return { columns, rows := (t.matching condition).map fun entry => project columns entry.2 }

/-- Writes records to the log of a table and then applies them. Without records nothing is
written. -/
def applyLogged (name : String) (t : Table) (records : List Record) : EngineM Unit := do
  if !records.isEmpty then
    append name (records.flatMap Record.encode)
    setTable name (records.foldl Table.apply t)

/-- Deletes the rows that satisfy a condition. -/
def delete (name : String) (condition : Option Condition) : EngineM QueryResult :=
  withLock name do
    ensureUserTable name
    let t ← table name
    let records := (t.matching condition).map fun entry => Record.delete entry.1
    applyLogged name t records
    return {
      affected := records.length
      message := some (Text.Decimal.text records.length ++ " row(s) deleted") }

/-- Assigns values to columns of the rows that satisfy a condition. The condition is decided on
the rows as they are before. -/
def update (name : String) (assignments : Row) (condition : Option Condition) :
    EngineM QueryResult := withLock name do
  ensureUserTable name
  let t ← table name
  let records := (t.matching condition).map fun entry =>
    Record.update entry.1 (entry.2.insertMany assignments.entries)
  applyLogged name t records
  return {
    affected := records.length
    message := some (Text.Decimal.text records.length ++ " row(s) updated") }

/-- Executes a statement. -/
def executeStatement (statement : Statement) : EngineM QueryResult :=
  match statement.action with
  | .createTable .. => createTable statement.table
  | .insert columns values => insert statement.table columns values
  | .select columns condition => select statement.table columns condition
  | .delete condition => delete statement.table condition
  | .update assignments condition => update statement.table assignments condition

/-- Executes the statement that a query denotes. -/
def execute (sql : String) : EngineM QueryResult := fun e =>
  match Statement.ofText sql with
  | .ok statement => executeStatement statement e
  | .error error => .error error e

end RelStore.Engine
