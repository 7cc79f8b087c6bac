import RelStore.Sql.Statement.Reader

/-!
# How a query begins

The first word of a query tells which statement it is, before any token is read. For CREATE
the second word counts as well. `Statement.ofText` reads a query by the grammar of the
statement that its opening announces.
-/

namespace RelStore.Sql

/-- The statement that a query announces. -/
inductive Opening where
  | insert
  | select
  | update
  | delete
  | createTable
deriving DecidableEq, Repr

namespace Opening

/-- The words of the opening. -/
def words : Opening → String
  | insert => "INSERT"
  | select => "SELECT"
  | update => "UPDATE"
  | delete => "DELETE"
  | createTable => "CREATE TABLE"

/-- What a query announces whose opening word is CREATE, from the text behind that word. The
second word is compared in ASCII capitals only. -/
def afterCreate (rest : List Char) : Except Error Opening :=
  let second := (Text.trimStart rest).takeWhile Text.isWordChar
  if second.map Char.toUpper = "TABLE".toList then .ok createTable
  else
    let words := "CREATE ".toList ++ second.flatMap Text.upperChar
    .error (.unsupportedStatementType (String.ofList (Text.trimEnd words)))

/-- What a query announces. -/
def ofText (sql : String) : Except Error Opening :=
  let text := Text.trim sql.toList
  match text with
  | [] => .error .emptyQuery
  | c :: _ =>
    let first := String.ofList ((text.takeWhile Text.isWordChar).flatMap Text.upperChar)
    if first = "INSERT" then .ok insert
    else if first = "SELECT" then .ok select
    else if first = "UPDATE" then .ok update
    else if first = "DELETE" then .ok delete
    else if first = "CREATE" then afterCreate (text.dropWhile Text.isWordChar)
    else if first = "" then .error (.unsupportedStatementType c.toString)
    else .error (.unsupportedStatementType first)

/-- Reads the statement that the opening announces. -/
def read : Opening → Read Statement
  | insert => Reader.insert
  | select => Reader.select
  | update => Reader.update
  | delete => Reader.delete
  | createTable => Reader.createTable

end Opening

/-- The statement that a query denotes. -/
def Statement.ofText (sql : String) : Except Error Statement := do
  let opening ← Opening.ofText sql
  let reader ← Reader.ofText sql
  match opening.read reader with
  | .ok statement _ => .ok statement
  | .error e _ => .error e

end RelStore.Sql
