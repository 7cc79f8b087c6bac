import RelStore.Text.Decimal

/-!
# Causes of failure

Everything that can go wrong, with the data that the message of each cause names.
-/

namespace RelStore

/-- Why a text, a statement, a file or a configuration is refused. -/
inductive Error where
  /-- A character that starts no token. -/
  | unexpectedCharacter (char : Char) (position : Nat)
  /-- A quoted literal that is never closed; the position is that of its opening quote. -/
  | unterminatedString (position : Nat)
  /-- A token that the grammar does not allow where it stands. -/
  | unexpectedToken (expected found : String) (position : Nat)
  /-- A column that an INSERT or an UPDATE names twice. -/
  | duplicateColumn (column : String)
  /-- An INSERT with another number of values than columns. -/
  | argumentCountMismatch (columns values : Nat)
  /-- A query of blanks only. -/
  | emptyQuery
  /-- A query that begins like none of the known statements. -/
  | unsupportedStatementType (opening : String)
  /-- A table that exists already. -/
  | duplicateTable (table : String)
  /-- A table that does not exist. -/
  | unknownTable (table : String)
  /-- A column that no row of the table has. -/
  | columnNotFound (column table : String)
  /-- A table that is locked, where the caller does not wait. -/
  | tableAlreadyLocked (table : String)
  /-- A table that stayed locked up to the end of the wait. -/
  | lockTimeout (table : String)
  /-- A write that the table's file did not take. -/
  | ioFailure (table : String)
  /-- A line of a row log that is no record; lines count from one. -/
  | corruptedRecord (table : String) (line : Nat)
  /-- A file or directory that cannot be opened, read or created. -/
  | io
  /-- A configuration file that is not the JSON of a configuration. -/
  | serialization
  /-- A configuration that no engine can run with. -/
  | invalidConfig (reason : String)
deriving DecidableEq, Repr

/-- The message shown for a failure. -/
def Error.message : Error → String
  | unexpectedCharacter char position =>
    "Lexer error: unexpected character '" ++ char.toString ++ "' at position " ++
      Text.Decimal.text position
  | unterminatedString position =>
    "Lexer error: unterminated string literal starting at position " ++
      Text.Decimal.text position
  | unexpectedToken expected found position =>
    "Parse error: expected " ++ expected ++ ", found " ++ found ++ " at position " ++
      Text.Decimal.text position
  | duplicateColumn column => "Parse error: column '" ++ column ++ "' assigned more than once"
  | argumentCountMismatch columns values =>
    "Parse error: " ++ Text.Decimal.text columns ++ " column(s) but " ++
      Text.Decimal.text values ++ " value(s)"
  | emptyQuery => "Dispatch error: query is empty"
  | unsupportedStatementType opening =>
    "Dispatch error: unsupported statement type '" ++ opening ++ "'"
  | duplicateTable table => "Catalog error: table '" ++ table ++ "' already exists"
  | unknownTable table => "Catalog error: table '" ++ table ++ "' not found"
  | columnNotFound column table =>
    "Catalog error: column '" ++ column ++ "' not found in table '" ++ table ++ "'"
  | tableAlreadyLocked table => "Lock error: table '" ++ table ++ "' is already locked"
  | lockTimeout table => "Lock error: timed out waiting for table '" ++ table ++ "'"
  | ioFailure table => "Storage error: write to '" ++ table ++ "' failed"
  | corruptedRecord table line =>
    "Storage error: corrupted record in '" ++ table ++ "' at line " ++ Text.Decimal.text line
  | io => "I/O error"
  | serialization => "Serialization error"
  | invalidConfig reason => "Configuration error: " ++ reason

end RelStore
