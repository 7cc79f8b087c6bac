import RelStore.Sql.Quoted
import RelStore.Sql.Statement
import RelStore.Text.Decimal

/-!
# The canonical text of a statement

Keywords in capitals, one space between words, every literal in quotes with the quotes inside
it doubled, and a semicolon at the end.
-/

namespace RelStore.Sql

/-- A value as a quoted literal. -/
def renderLiteral (value : String) : String :=
  "'" ++ String.ofList (doubleQuotes value.toList) ++ "'"

/-- Items with a comma and a space between them. -/
def commaSeparated (items : List String) : String := String.intercalate ", " items

/-- A comparison, with its operator as it stands. -/
def Condition.render (condition : Condition) : String :=
  condition.column ++ " " ++ condition.operator ++ " " ++ renderLiteral condition.value

/-- A WHERE clause with a space before it, or nothing. -/
def renderWhere : Option Condition → String
  | some condition => " WHERE " ++ condition.render
  | none => ""

/-- A column: its name, its type, its size in parentheses and its constraint words. -/
def ColumnDefinition.render (column : ColumnDefinition) : String :=
  let size := match column.size with
    | some size => "(" ++ Text.Decimal.text size.toNat ++ ")"
    | none => ""
  column.name ++ " " ++ column.dataType.word ++ size ++
    String.join (column.constraints.map (" " ++ ·))

/-- A key of a table. -/
def TableConstraint.render : TableConstraint → String
  | primaryKey columns => "PRIMARY KEY (" ++ commaSeparated columns ++ ")"
  | foreignKey name column referencedTable referencedColumn =>
    let naming := match name with
      | some name => "CONSTRAINT " ++ name ++ " "
      | none => ""
    naming ++ "FOREIGN KEY (" ++ column ++ ") REFERENCES " ++ referencedTable ++ "(" ++
      referencedColumn ++ ")"

/-- The canonical text of a statement. -/
def Statement.render (statement : Statement) : String :=
  match statement.action with
  | .insert columns values =>
    "INSERT INTO " ++ statement.table ++ " (" ++ commaSeparated columns ++ ") VALUES (" ++
      commaSeparated (values.map renderLiteral) ++ ");"
  | .select columns condition =>
    "SELECT " ++ commaSeparated columns ++ " FROM " ++ statement.table ++
      renderWhere condition ++ ";"
  | .delete condition => "DELETE FROM " ++ statement.table ++ renderWhere condition ++ ";"
  | .update assignments condition =>
    "UPDATE " ++ statement.table ++ " SET " ++
      commaSeparated (assignments.entries.map fun (column, value) =>
        column ++ " = " ++ renderLiteral value) ++
      renderWhere condition ++ ";"
  | .createTable columns constraints =>
    "CREATE TABLE " ++ statement.table ++ " (" ++
      commaSeparated (columns.map (·.render) ++ constraints.map (·.render)) ++ ");"

end RelStore.Sql
