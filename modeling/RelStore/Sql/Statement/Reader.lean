import RelStore.Sql.Statement
import RelStore.Sql.Token.Feed

/-!
# Reading statements

A reader holds one token and looks no further ahead. A step that meets a token it cannot use
leaves the reader as it was; a step that meets an error while it moves on keeps the token that
it holds. Lists and repeated words are read by `Reader.repeatWhile`, whose bound is the number
of items left in the feed.
-/

namespace RelStore.Sql

/-- A reader in the middle of a query: the query, the token it holds and what comes behind. -/
structure Reader where
  source : String
  current : Token
  feed : Feed

/-- A step of a reader, which may fail and may move the reader either way. -/
abbrev Read := EStateM Error Reader

namespace Reader

/-- A reader that holds the first token of a query. -/
def ofText (sql : String) : Except Error Reader :=
  match (Feed.ofText sql).next with
  | (.ok token, feed) => .ok { source := sql, current := token, feed }
  | (.error e, _) => .error e

/-- Moves on to the next token and returns the one held before. -/
def advance : Read Token := fun r =>
  match r.feed.next with
  | (.ok token, feed) => .ok r.current { r with current := token, feed }
  | (.error e, feed) => .error e { r with feed }

/-- Refuses the token that the reader holds. -/
def unexpected (expected : String) : Read α := fun r =>
  .error (.unexpectedToken expected r.current.describe r.current.position) r

/-- Whether the reader holds this keyword. -/
def holds (keyword : String) : Read Bool := fun r =>
  .ok (r.current.is .keyword (some keyword)) r

/-- Takes a token of the kind and, where one is given, the text. -/
def expect (kind : TokenKind) (text : Option String := none) : Read Token := do
  if (← get).current.is kind text then advance else unexpected (describeExpected kind text)

/-- Takes such a token if the reader holds one, and tells whether it did. -/
def accept (kind : TokenKind) (text : Option String := none) : Read Bool := do
  if (← get).current.is kind text then
    let _ ← advance
    pure true
  else pure false

/-- Takes a keyword. -/
def keyword (word : String) : Read Unit := do
  let _ ← expect .keyword (some word)

/-- Takes a keyword if the reader holds it. -/
def acceptKeyword (word : String) : Read Bool := accept .keyword (some word)

/-- Takes the name of a table, a column or a constraint. -/
def identifier : Read String := return (← expect .identifier).text

/-- Takes a literal. -/
def literal : Read String := return (← expect .literal).text

/-- Takes the end of the query. -/
def finish : Read Unit := do
  let _ ← expect .endOfInput

/-- Changes a value by a step, at most so many times, until the step has nothing to read. -/
def repeatUpTo (step : β → Read (Option β)) : Nat → β → Read β
  | 0, b => pure b
  | bound + 1, b => do
    match ← step b with
    | some b => repeatUpTo step bound b
    | none => pure b

/-- Changes a value by a step until the step has nothing to read. A step that reads takes at
least the token that the reader holds, so there are at most as many as items left. -/
def repeatWhile (step : β → Read (Option β)) (b : β) : Read β := do
  repeatUpTo step ((← get).feed.ahead.length + 1) b

/-- Reads items with commas between them, each of them added to what was read before. -/
def separated (item : β → Read β) (b : β) : Read β := do
  let first ← item b
  repeatWhile (fun b => do
    if ← accept .comma then return some (← item b) else return none) first

/-- One or more identifiers with commas between them. -/
def identifiers : Read (List String) :=
  separated (fun names => return names ++ [← identifier]) []

/-- One or more literals with commas between them. -/
def literals : Read (List String) :=
  separated (fun values => return values ++ [← literal]) []

/-- What stands between parentheses. -/
def parenthesized (inner : Read α) : Read α := do
  let _ ← expect .openParen
  let a ← inner
  let _ ← expect .closeParen
  return a

/-- A WHERE clause, if there is one. -/
def condition : Read (Option Condition) := do
  if ← acceptKeyword "WHERE" then
    let column ← identifier
    let operator ← expect .operator (some "=")
    let value ← literal
    return some { column, operator := operator.text, value }
  else return none

/-! ## CREATE TABLE -/

/-- The size that a literal denotes: digits, which a plus sign may precede. -/
def size? (literal : String) : Option UInt32 :=
  let digits := match literal.toList with
    | '+' :: rest => rest
    | cs => cs
  (Text.Decimal.read? UInt32.size digits).map .ofNat

/-- The size of a column, if there is one. -/
def columnSize : Read (Option UInt32) := do
  if ← accept .openParen then
    let token ← expect .literal
    match size? token.text with
    | none => throw (.unexpectedToken "column size" token.describe token.position)
    | some size =>
      let _ ← expect .closeParen
      return some size
  else return none

/-- One constraint behind a column: a word for the column, or a key of the table, which the
last one written decides. -/
def columnConstraint (read : List String × Option TableConstraint) :
    Read (Option (List String × Option TableConstraint)) := do
  let (words, key) := read
  if ← acceptKeyword "NOT" then
    keyword "NULL"
    return some (words ++ ["NOT NULL"], key)
  else if ← acceptKeyword "NULL" then
    return some (words ++ ["NULL"], key)
  else if ← acceptKeyword "UNIQUE" then
    return some (words ++ ["UNIQUE"], key)
  else if ← acceptKeyword "PRIMARY" then
    keyword "KEY"
    if ← accept .openParen then
      let columns ← identifiers
      let _ ← expect .closeParen
      return some (words, some (.primaryKey columns))
    else return some (words ++ ["PRIMARY KEY"], key)
  else return none

/-- A column: its name, its type, its size and its constraints. A key written behind it
belongs to the table. -/
def columnDefinition : Read (ColumnDefinition × Option TableConstraint) := do
  let name ← identifier
  let token ← expect .dataType
  match DataType.ofWord? token.text with
  | none => throw (.unexpectedToken TokenKind.dataType.text token.describe token.position)
  | some dataType =>
    let size ← columnSize
    let (constraints, key) ← repeatWhile columnConstraint ([], none)
    return ({ name, dataType, size, constraints }, key)

/-- A primary key as an element of its own. -/
def primaryKey : Read TableConstraint := do
  keyword "PRIMARY"
  keyword "KEY"
  return .primaryKey (← parenthesized identifiers)

/-- A foreign key, which may have a name. -/
def foreignKey : Read TableConstraint := do
  let name ← if ← acceptKeyword "CONSTRAINT" then some <$> identifier else pure none
  keyword "FOREIGN"
  keyword "KEY"
  let column ← parenthesized identifier
  keyword "REFERENCES"
  let referencedTable ← identifier
  let referencedColumn ← parenthesized identifier
  return .foreignKey name column referencedTable referencedColumn

/-- An element of a CREATE TABLE, added to the columns and constraints read so far. -/
def tableElement (read : List ColumnDefinition × List TableConstraint) :
    Read (List ColumnDefinition × List TableConstraint) := do
  let (columns, constraints) := read
  if ← holds "PRIMARY" then
    return (columns, constraints ++ [← primaryKey])
  else if (← holds "CONSTRAINT") || (← holds "FOREIGN") then
    return (columns, constraints ++ [← foreignKey])
  else
    let (column, key) ← columnDefinition
    return (columns ++ [column], constraints ++ key.toList)

/-! ## Statements -/

/-- The statement on the table, with the text that the reader was made for. -/
def statement (table : String) (action : Action) : Read Statement :=
  return { source := (← get).source, table, action }

/-- Reads a CREATE TABLE: its columns and constraints between parentheses. -/
def createTable : Read Statement := do
  keyword "CREATE"
  keyword "TABLE"
  let table ← identifier
  let (columns, constraints) ← parenthesized (separated tableElement ([], []))
  finish
  statement table (.createTable columns constraints)

/-- The first column that the list has named before. -/
def firstRepeated? (seen : List String) : List String → Option String
  | [] => none
  | name :: rest => if name ∈ seen then some name else firstRepeated? (name :: seen) rest

/-- Reads an INSERT. Repeated columns are refused before the values are read, a wrong number of
values at the end. -/
def insert : Read Statement := do
  keyword "INSERT"
  keyword "INTO"
  let table ← identifier
  let columns ← parenthesized identifiers
  if let some column := firstRepeated? [] columns then throw (.duplicateColumn column)
  keyword "VALUES"
  let values ← parenthesized literals
  finish
  if columns.length ≠ values.length then
    throw (.argumentCountMismatch columns.length values.length)
  statement table (.insert columns values)

/-- Reads a SELECT. -/
def select : Read Statement := do
  keyword "SELECT"
  let columns ← identifiers
  keyword "FROM"
  let table ← identifier
  let condition ← condition
  finish
  statement table (.select columns condition)

/-- Reads a DELETE. -/
def delete : Read Statement := do
  keyword "DELETE"
  keyword "FROM"
  let table ← identifier
  let condition ← condition
  finish
  statement table (.delete condition)

/-- An assignment of an UPDATE, added to those read so far. -/
def assignment (read : Row) : Read Row := do
  let column ← identifier
  let _ ← expect .operator (some "=")
  let value ← literal
  if read.contains column then throw (.duplicateColumn column)
  return read.insert column value

/-- Reads an UPDATE. -/
def update : Read Statement := do
  keyword "UPDATE"
  let table ← identifier
  keyword "SET"
  let assignments ← separated assignment ∅
  let condition ← condition
  finish
  statement table (.update assignments condition)

/-- Reads the statement that the keyword held by the reader begins. -/
def anyStatement : Read Statement := do
  if ← holds "INSERT" then insert
  else if ← holds "SELECT" then select
  else if ← holds "UPDATE" then update
  else if ← holds "DELETE" then delete
  else if ← holds "CREATE" then createTable
  else unexpected "INSERT, SELECT, UPDATE, DELETE or CREATE"

end Reader

end RelStore.Sql
