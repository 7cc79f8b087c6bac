import RelStore.Sql.Statement.Reader

/-!
# The grammar of statements

What a statement is on the level of tokens, said without a reader. A token stands for a symbol
of the grammar (`Token.symbol?`), and `Derives` lists the phrases of symbols that are statements
on a table, each with what it does to the table. The elements of a CREATE TABLE are kept as they
are written, one by one, and only then sorted into columns and constraints.
-/

namespace RelStore.Sql

/-- What the grammar sees of a token. -/
inductive Symbol where
  | keyword (word : String)
  | identifier (name : String)
  | literal (value : String)
  | dataType (type : DataType)
  | comma
  | openParen
  | closeParen
  | equals
deriving DecidableEq

/-- The symbol that a token stands for. Blanks and the end of the input stand for none. -/
def Token.symbol? (token : Token) : Option Symbol :=
  match token.kind with
  | .keyword => some (.keyword token.text)
  | .identifier => some (.identifier token.text)
  | .literal => some (.literal token.text)
  | .dataType => (DataType.ofWord? token.text).map .dataType
  | .comma => some .comma
  | .openParen => some .openParen
  | .closeParen => some .closeParen
  | .operator => if token.text = "=" then some .equals else none
  | .whitespace | .endOfInput => none

namespace Grammar

/-- Phrases with commas between them. -/
def listed (phrases : List (List Symbol)) : List Symbol := List.intercalate [.comma] phrases

/-- A phrase between parentheses. -/
def parenthesized (phrase : List Symbol) : List Symbol := .openParen :: (phrase ++ [.closeParen])

/-- Identifiers with commas between them. -/
def names (names : List String) : List Symbol := listed (names.map ([.identifier ·]))

/-- Literals with commas between them. -/
def literals (values : List String) : List Symbol := listed (values.map ([.literal ·]))

/-- A comparison of a column with a literal. -/
def comparison (column value : String) : List Symbol :=
  [.identifier column, .equals, .literal value]

/-- A WHERE clause, or nothing. -/
def whereClause : Option Condition → List Symbol
  | some condition => .keyword "WHERE" :: comparison condition.column condition.value
  | none => []

/-! ## Elements of a CREATE TABLE -/

/-- A constraint that is written behind a column. -/
inductive Attribute where
  | notNull
  | null
  | unique
  | primaryKey
  /-- A key of the table, with its columns. -/
  | key (columns : List String)

namespace Attribute

/-- How the constraint is written. -/
def symbols : Attribute → List Symbol
  | notNull => [.keyword "NOT", .keyword "NULL"]
  | null => [.keyword "NULL"]
  | unique => [.keyword "UNIQUE"]
  | primaryKey => [.keyword "PRIMARY", .keyword "KEY"]
  | key columns => .keyword "PRIMARY" :: .keyword "KEY" :: parenthesized (names columns)

/-- The words of a constraint on the column itself. -/
def words : Attribute → List String
  | notNull => ["NOT NULL"]
  | null => ["NULL"]
  | unique => ["UNIQUE"]
  | primaryKey => ["PRIMARY KEY"]
  | key _ => []

/-- The key of the table. -/
def key? : Attribute → Option TableConstraint
  | key columns => some (.primaryKey columns)
  | _ => none

/-- A key has columns. -/
def Admissible : Attribute → Prop
  | key columns => columns ≠ []
  | _ => True

instance : DecidablePred Admissible
  | key columns => inferInstanceAs (Decidable (columns ≠ []))
  | notNull | null | unique | primaryKey => inferInstanceAs (Decidable True)

end Attribute

/-- How a constraint on a table is written. -/
def tableConstraint : TableConstraint → List Symbol
  | .primaryKey columns => .keyword "PRIMARY" :: .keyword "KEY" :: parenthesized (names columns)
  | .foreignKey name column referencedTable referencedColumn =>
    name.toList.flatMap (fun name => [.keyword "CONSTRAINT", .identifier name]) ++
      .keyword "FOREIGN" :: .keyword "KEY" :: parenthesized [.identifier column] ++
      .keyword "REFERENCES" :: .identifier referencedTable ::
        parenthesized [.identifier referencedColumn]

/-- An element between the parentheses of a CREATE TABLE. -/
inductive Element where
  /-- A column with the literal for its size and what is written behind it. -/
  | column (name : String) (type : DataType) (size : Option String) (attributes : List Attribute)
  | constraint (constraint : TableConstraint)

namespace Element

/-- How the element is written. -/
def symbols : Element → List Symbol
  | column name type size attributes =>
    [.identifier name, .dataType type] ++
      size.toList.flatMap (fun size => parenthesized [.literal size]) ++
      attributes.flatMap Attribute.symbols
  | constraint c => tableConstraint c

/-- The literal of a size is a number, and keys have columns. -/
def Admissible : Element → Prop
  | column _ _ size attributes =>
    (∀ literal ∈ size, (Reader.size? literal).isSome) ∧ ∀ a ∈ attributes, a.Admissible
  | constraint (.primaryKey columns) => columns ≠ []
  | constraint (.foreignKey ..) => True

instance : DecidablePred Admissible
  | column _ _ size attributes =>
    inferInstanceAs (Decidable ((∀ literal ∈ size, (Reader.size? literal).isSome) ∧
      ∀ a ∈ attributes, a.Admissible))
  | constraint (.primaryKey columns) => inferInstanceAs (Decidable (columns ≠ []))
  | constraint (.foreignKey ..) => inferInstanceAs (Decidable True)

/-- The column that the element defines. -/
def columns : Element → List ColumnDefinition
  | column name dataType size attributes =>
    [{ name, dataType, size := size.bind Reader.size?,
       constraints := attributes.flatMap Attribute.words }]
  | constraint _ => []

/-- The constraint that the element puts on the table. Of several keys behind a column it is the
last. -/
def constraints : Element → List TableConstraint
  | column _ _ _ attributes => (attributes.filterMap Attribute.key?).getLast?.toList
  | constraint c => [c]

end Element

/-! ## Statements -/

/-- The phrases that are statements on a table, and what each does to it. -/
inductive Derives (table : String) : List Symbol → Action → Prop
  /-- `INSERT INTO table (columns) VALUES (literals)` -/
  | insert {columns values : List String} :
    columns ≠ [] → columns.Nodup → columns.length = values.length →
    Derives table
      ([.keyword "INSERT", .keyword "INTO", .identifier table] ++ parenthesized (names columns) ++
        .keyword "VALUES" :: parenthesized (literals values))
      (.insert columns values)
  /-- `SELECT columns FROM table [WHERE column = literal]` -/
  | select {columns : List String} {condition : Option Condition} :
    columns ≠ [] → (∀ c ∈ condition, c.operator = "=") →
    Derives table
      (.keyword "SELECT" :: names columns ++ [.keyword "FROM", .identifier table] ++
        whereClause condition)
      (.select columns condition)
  /-- `DELETE FROM table [WHERE column = literal]` -/
  | delete {condition : Option Condition} :
    (∀ c ∈ condition, c.operator = "=") →
    Derives table
      ([.keyword "DELETE", .keyword "FROM", .identifier table] ++ whereClause condition)
      (.delete condition)
  /-- `UPDATE table SET column = literal, … [WHERE column = literal]` -/
  | update {pairs : List (String × String)} {condition : Option Condition} :
    pairs ≠ [] → (pairs.map Prod.fst).Nodup → (∀ c ∈ condition, c.operator = "=") →
    Derives table
      ([.keyword "UPDATE", .identifier table, .keyword "SET"] ++
        listed (pairs.map fun pair => comparison pair.1 pair.2) ++ whereClause condition)
      (.update (.ofList pairs) condition)
  /-- `CREATE TABLE table (elements)` -/
  | createTable {elements : List Element} :
    elements ≠ [] → (∀ element ∈ elements, element.Admissible) →
    Derives table
      ([.keyword "CREATE", .keyword "TABLE", .identifier table] ++
        parenthesized (listed (elements.map Element.symbols)))
      (.createTable (elements.flatMap Element.columns) (elements.flatMap Element.constraints))

end Grammar

end RelStore.Sql
