import RelStore.Text.Uppercase

/-!
# Tokens

The pieces that a query is cut into. Words are keywords, names of data types or identifiers;
which of them is decided on the word in capitals, so that letter case does not matter for the
reserved words and is kept for identifiers.
-/

namespace RelStore.Sql

/-- What a token is. -/
inductive TokenKind where
  | keyword
  | identifier
  | operator
  | literal
  | comma
  | whitespace
  | openParen
  | closeParen
  | dataType
  | endOfInput
deriving DecidableEq, Repr

/-- How messages name a kind of token. -/
def TokenKind.text : TokenKind → String
  | keyword => "keyword"
  | identifier => "identifier"
  | operator => "operator"
  | literal => "literal"
  | comma => "','"
  | whitespace => "whitespace"
  | openParen => "'('"
  | closeParen => "')'"
  | dataType => "data type"
  | endOfInput => "end of input"

/-- A piece of a query. The text of a reserved word is in capitals, that of a quoted literal
is its contents, that of a run of blanks is one space. The position counts characters. -/
structure Token where
  kind : TokenKind
  text : String
  position : Nat
deriving DecidableEq, Repr

namespace Token

/-- The reserved words that structure a statement. -/
def keywords : List String :=
  ["SELECT", "FROM", "WHERE", "INSERT", "INTO", "VALUES", "UPDATE", "DELETE", "SET", "CREATE",
    "TABLE", "PRIMARY", "KEY", "NOT", "NULL", "UNIQUE", "CONSTRAINT", "FOREIGN", "REFERENCES"]

/-- The reserved words that name a data type. -/
def dataTypes : List String := ["DATE", "BOOLEAN", "FLOAT", "VARCHAR", "INT", "DECIMAL"]

/-- The token of a word: reserved if the word in capitals is, else an identifier. -/
def ofWord (word : String) (position : Nat) : Token :=
  let capitals := Text.upper word
  if capitals ∈ keywords then ⟨.keyword, capitals, position⟩
  else if capitals ∈ dataTypes then ⟨.dataType, capitals, position⟩
  else ⟨.identifier, word, position⟩

/-- The token for the end of a query. -/
def atEnd (position : Nat) : Token := ⟨.endOfInput, "", position⟩

/-- Whether the token has the kind and, where one is asked for, the text. -/
def is (token : Token) (kind : TokenKind) (text : Option String) : Bool :=
  token.kind == kind && text.all (· == token.text)

/-- How messages name a token. -/
def describe (token : Token) : String :=
  match token.kind with
  | .endOfInput | .whitespace | .comma | .openParen | .closeParen => token.kind.text
  | _ => token.kind.text ++ " '" ++ token.text ++ "'"

end Token

/-- How messages name what was expected. -/
def describeExpected (kind : TokenKind) (text : Option String) : String :=
  match text with
  | some text => kind.text ++ " '" ++ text ++ "'"
  | none => kind.text

end RelStore.Sql
