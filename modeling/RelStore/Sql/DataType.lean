import RelStore.Text.Uppercase

/-!
# Data types of columns
-/

namespace RelStore.Sql

/-- The declared type of a column. -/
inductive DataType where
  | date
  | boolean
  | float
  | varchar
  | int
  | decimal
deriving DecidableEq, Repr

namespace DataType

/-- The word that names the type. -/
def word : DataType → String
  | date => "DATE"
  | boolean => "BOOLEAN"
  | float => "FLOAT"
  | varchar => "VARCHAR"
  | int => "INT"
  | decimal => "DECIMAL"

/-- All types. -/
def all : List DataType := [date, boolean, float, varchar, int, decimal]

/-- The type that a word names, in any letter case. -/
def ofWord? (word : String) : Option DataType :=
  all.find? fun type => type.word == Text.upper word

end DataType

end RelStore.Sql
