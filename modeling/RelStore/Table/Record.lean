import RelStore.Json.Reader
import RelStore.Row
import RelStore.Text.Utf8

/-!
# Records of a row log

A row log holds one record per line, as a compact JSON object. Reading is laxer than writing:
the fields may come in any order among unknown ones, and the record may be an array of its
fields in written order.
-/

namespace RelStore

/-- The number of a row within its table. -/
abbrev RowId := UInt64

/-- One change of a table. -/
inductive Record where
  | insert (id : RowId) (row : Row)
  /-- Replaces the whole row. -/
  | update (id : RowId) (row : Row)
  | delete (id : RowId)
deriving DecidableEq

namespace Record

/-- The row that a record is about. -/
def id : Record → RowId
  | insert id _ => id
  | update id _ => id
  | delete id => id

/-! ## Writing -/

/-- The members of an object in written order. -/
def memberTexts (row : Row) : List (List Char) :=
  row.entries.map fun (column, value) => Json.quote column ++ ':' :: Json.quote value

/-- A row as a JSON object. -/
def rowText (row : Row) : List Char :=
  '{' :: List.intercalate [','] (memberTexts row) ++ ['}']

/-- The fields that every record begins with. -/
def head (op : String) (id : RowId) : List Char :=
  "\x7b\"op\":".toList ++ Json.quote op ++ ",\"row_id\":".toList ++ Text.Decimal.digits id.toNat

/-- A record as a JSON object. -/
def text : Record → List Char
  | insert id row => head "insert" id ++ ",\"values\":".toList ++ rowText row ++ ['}']
  | update id row => head "update" id ++ ",\"values\":".toList ++ rowText row ++ ['}']
  | delete id => head "delete" id ++ ['}']

/-- A record as a line of the log. -/
def encode (record : Record) : Text.Utf8.Bytes := Text.Utf8.encode (record.text ++ ['\n'])

/-! ## Reading -/

/-- The column and the value of a member, if both are strings. -/
def cellOf? : Option String × Json.Value → Option (String × String)
  | (some column, .string (some value)) => some (column, value)
  | _ => none

/-- The row of a JSON object of strings; a key that comes again keeps its place and takes the
last value. -/
def rowOf? : Json.Value → Option Row
  | .object members => (members.mapM cellOf?).map OrderedMap.ofList
  | _ => none

/-- The id of a JSON number. -/
def idOf? : Json.Value → Option RowId
  | .number number => number.natural?
  | _ => none

/-- The record with this operation and these values of its fields. -/
def ofFields? (op : String) (id values : List Json.Value) : Option Record :=
  match op, id, values with
  | "insert", [id], [values] => return insert (← idOf? id) (← rowOf? values)
  | "update", [id], [values] => return update (← idOf? id) (← rowOf? values)
  | "delete", [id], _ => return delete (← idOf? id)
  | _, _, _ => none

/-- The record that a JSON value stands for. -/
def ofValue? : Json.Value → Option Record
  | .object members =>
    match Json.membersOf "op" members with
    | [.string (some op)] =>
      ofFields? op (Json.membersOf "row_id" members) (Json.membersOf "values" members)
    | _ => none
  | .array [.string (some op), id] => if op = "delete" then ofFields? op [id] [] else none
  | .array [.string (some op), id, values] =>
    if op = "delete" then none else ofFields? op [id] [values]
  | _ => none

/-- The record that a line spells. -/
def read? (line : List Char) : Option Record := do
  let document ← Json.read? line
  if document.exact then ofValue? document.value else none

end Record

end RelStore
