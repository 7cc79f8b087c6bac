import RelStore.Row
import RelStore.Sql.DataType

/-!
# Statements

A statement names one table and says what to do with it. It keeps the text that it was read
from.
-/

namespace RelStore.Sql

/-- The predicate of a WHERE clause: a column compared with a literal. -/
structure Condition where
  column : String
  operator : String := "="
  value : String
deriving DecidableEq

/-- A column of a CREATE TABLE. -/
structure ColumnDefinition where
  name : String
  dataType : DataType
  /-- The number in parentheses behind the type, as in `VARCHAR(40)`. -/
  size : Option UInt32 := none
  /-- The constraint words behind the type, such as `NOT NULL`, in written order. -/
  constraints : List String := []
deriving DecidableEq

/-- A constraint on a table as a whole. -/
inductive TableConstraint where
  | primaryKey (columns : List String)
  | foreignKey (name : Option String) (column referencedTable referencedColumn : String)
deriving DecidableEq

/-- What a statement does to its table. -/
inductive Action where
  | insert (columns values : List String)
  | select (columns : List String) (condition : Option Condition)
  | delete (condition : Option Condition)
  | update (assignments : Row) (condition : Option Condition)
  | createTable (columns : List ColumnDefinition) (constraints : List TableConstraint)
deriving DecidableEq

/-- A statement: its text, its table and its action. -/
structure Statement where
  source : String
  table : String
  action : Action
deriving DecidableEq

/-- The name of the action for people. -/
def Action.name : Action → String
  | insert .. => "Insert"
  | select .. => "Select"
  | delete .. => "Delete"
  | update .. => "Update"
  | createTable .. => "Create table"

end RelStore.Sql
