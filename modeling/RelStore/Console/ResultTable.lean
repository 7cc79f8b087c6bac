import RelStore.Engine.State

/-!
# Result tables

Rows as a table of text. A column is as wide as the longest of its texts in bytes, while a text
fills as much of the width as it has characters; since no text has more characters than bytes,
every cell holds its text in full. Widths are numbers of 16 bits: a result with a wider column has
no table.
-/

namespace RelStore.Console

/-- Spaces. -/
def spaces (n : Nat) : List Char := List.replicate n ' '

/-- The greatest width that a text can be laid out to. -/
def greatestWidth : Nat := UInt16.size - 1

/-- A text followed by spaces up to a width. -/
def padRight (width : Nat) (text : String) : Option (List Char) := do
  guard (width ≤ greatestWidth)
  return text.toList ++ spaces (width - text.length)

/-- A text between spaces up to a width; an odd one goes to the right. -/
def padCentre (width : Nat) (text : String) : Option (List Char) := do
  guard (width ≤ greatestWidth)
  let free := width - text.length
  return spaces (free / 2) ++ text.toList ++ spaces (free - free / 2)

/-- The widths of the columns. -/
def widths (result : QueryResult) : List Nat :=
  result.rows.foldl (fun ws row => ws.zipIdx.map fun (w, i) =>
      match row[i]? with
      | some value => max w value.utf8ByteSize
      | none => w)
    (result.columns.map (·.utf8ByteSize))

/-- The line between header, rows and what follows. -/
def separatorLine (widths : List Nat) : List Char :=
  '+' :: List.intercalate ['+'] (widths.map fun w => List.replicate (w + 2) '-') ++ ['+', '\n']

/-- Texts as cells of a line, each laid out by `pad` with a space on both sides. -/
def cells (pad : Nat → String → Option (List Char)) (widths : List Nat) (texts : List String) :
    Option (List (List Char)) :=
  (texts.zip widths).mapM fun (text, w) => return ' ' :: (← pad w text) ++ [' ']

/-- A line of cells. -/
def cellLine (pad : Nat → String → Option (List Char)) (widths : List Nat) (texts : List String) :
    Option (List Char) := do
  let cells ← cells pad widths texts
  return '|' :: List.intercalate ['|'] cells ++ ['|', '\n']

/-- The rows of a result as a table, and how many there are, unless a column is too wide. -/
def resultTable (result : QueryResult) : Option (List Char) := do
  let ws := widths result
  let header ← cellLine padCentre ws result.columns
  let rows ← result.rows.mapM (cellLine padRight ws)
  return separatorLine ws ++ header ++ separatorLine ws ++ rows.flatten ++
    (if result.rows.isEmpty then [] else separatorLine ws) ++
    Text.Decimal.digits result.rows.length ++ " row(s) returned\n".toList

end RelStore.Console
