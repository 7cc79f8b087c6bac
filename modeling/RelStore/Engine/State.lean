import RelStore.Catalog
import RelStore.Files.Sink
import RelStore.Locks
import RelStore.Table.Table

/-!
# The engine

The state of a running engine: its files behind a sink, the catalog and the tables in memory,
the locks, and the statements that wait for a table. `Engine.append` is the only way in which a
statement changes a file.
-/

namespace RelStore

open Text.Utf8 (Bytes)

/-- A running engine. -/
structure Engine where
  /-- The order of the indexes. -/
  order : Index.Order
  /-- The longest wait for a locked table in milliseconds; without it a wait has no end. -/
  lockWait : Option Nat
  sink : Sink
  catalog : Catalog := {}
  /-- The tables that were used so far. -/
  tables : OrderedMap String Table := ∅
  locks : Locks := {}
  /-- The statements that wait for their table, by the names of their waiters. -/
  suspended : OrderedMap String Sql.Statement := ∅

/-- The answer to a statement. -/
structure QueryResult where
  columns : List String := []
  /-- One value per column for every row. -/
  rows : List (List String) := []
  /-- The number of rows that were inserted, updated or deleted. -/
  affected : Nat := 0
  message : Option String := none
deriving DecidableEq

/-- A step of an engine. What it changed stays changed where it fails. -/
abbrev EngineM := EStateM Error Engine

namespace Engine

/-- The files of the engine. -/
def directory (e : Engine) : Directory := e.sink.directory

/-- Adds bytes to the file of a table. A target that cannot be opened and a write that is not
taken are failures of different kinds. -/
def append (table : String) (bytes : Bytes) : EngineM Unit := fun e =>
  match e.sink.setTarget table with
  | (.error error, sink) => .error error { e with sink }
  | (.ok (), sink) =>
    match sink.write bytes with
    | (true, sink) => .ok () { e with sink }
    | (false, sink) => .error (.ioFailure table) { e with sink }

/-- Runs a step while the table is locked. A table that is locked already fails the step before
it begins; the lock is released however the step ends. -/
def withLock (table : String) (step : EngineM α) : EngineM α := fun e =>
  match e.locks.lock? table with
  | none => .error (.tableAlreadyLocked table) e
  | some locks =>
    match step { e with locks } with
    | .ok a e => .ok a { e with locks := e.locks.release table }
    | .error error e => .error error { e with locks := e.locks.release table }

/-- Refuses a table that is not in the catalog, and the catalog's own. -/
def ensureUserTable (table : String) : EngineM Unit := fun e =>
  if table ≠ Catalog.reserved ∧ e.catalog.contains table then .ok () e
  else .error (.unknownTable table) e

/-- The rows of a table, read from its log when it is used for the first time. -/
def table (name : String) : EngineM Table := fun e =>
  match e.tables.get? name with
  | some table => .ok table e
  | none =>
    match Table.load name e.order e.directory with
    | .ok table => .ok table { e with tables := e.tables.insert name table }
    | .error error => .error error e

/-- Puts a table into its place in memory. -/
def setTable (name : String) (table : Table) : EngineM Unit := fun e =>
  .ok () { e with tables := e.tables.insert name table }

end Engine

end RelStore
