import RelStore.Text.Decimal

/-!
# Quoted strings

Writing a string between quotes, and the state of a reader inside of one. Escapes for code
points beyond the first 65536 come in pairs of surrogates; a string with a surrogate that is
not part of a pair has no text.
-/

namespace RelStore.Json

/-- A digit of a `\u` escape, as it is written. -/
def hexDigit (d : Nat) : Char := if d < 10 then Text.Decimal.digit d else Char.ofNat (87 + d)

/-- The value of a hexadecimal digit in either letter case. -/
def hexValue? (c : Char) : Option Nat :=
  if c.isDigit then some (c.toNat - 48)
  else if 'a' ≤ c && c ≤ 'f' then some (c.toNat - 87)
  else if 'A' ≤ c && c ≤ 'F' then some (c.toNat - 55)
  else none

/-- A character as it stands between quotes: escaped if it is a quote, a backslash or a control
character, else as it is. -/
def escapeChar (c : Char) : List Char :=
  match c with
  | '"' => ['\\', '"']
  | '\\' => ['\\', '\\']
  | '\x08' => ['\\', 'b']
  | '\t' => ['\\', 't']
  | '\n' => ['\\', 'n']
  | '\x0c' => ['\\', 'f']
  | '\r' => ['\\', 'r']
  | c =>
    if c.toNat < 32 then ['\\', 'u', '0', '0', hexDigit (c.toNat / 16), hexDigit (c.toNat % 16)]
    else [c]

/-- A string between quotes. -/
def quote (s : String) : List Char := '"' :: s.toList.flatMap escapeChar ++ ['"']

/-- The character that a backslash and a letter stand for. -/
def unescape? (c : Char) : Option Char :=
  match c with
  | '"' => some '"'
  | '\\' => some '\\'
  | '/' => some '/'
  | 'b' => some '\x08'
  | 't' => some '\t'
  | 'n' => some '\n'
  | 'f' => some '\x0c'
  | 'r' => some '\r'
  | _ => none

/-- A string that is being read: its characters so far, the last first; a high surrogate that
waits for its partner; and whether a surrogate was left alone. -/
structure PartialString where
  chars : List Char := []
  high : Option Nat := none
  unpaired : Bool := false

namespace PartialString

/-- Adds a character. -/
def push (s : PartialString) (c : Char) : PartialString :=
  { chars := c :: s.chars, unpaired := s.unpaired || s.high.isSome }

/-- Adds the unit of a `\u` escape. -/
def pushUnit (s : PartialString) (unit : Nat) : PartialString :=
  if 0xD800 ≤ unit && unit < 0xDC00 then
    { s with high := some unit, unpaired := s.unpaired || s.high.isSome }
  else if 0xDC00 ≤ unit && unit < 0xE000 then
    match s.high with
    | some high =>
      { s with
        chars := Char.ofNat (0x10000 + (high - 0xD800) * 1024 + (unit - 0xDC00)) :: s.chars
        high := none }
    | none => { s with unpaired := true }
  else s.push (Char.ofNat unit)

/-- The text of the string, if all surrogates are paired. -/
def text? (s : PartialString) : Option String :=
  if s.unpaired || s.high.isSome then none else some (String.ofList s.chars.reverse)

end PartialString

/-- Where a reader stands inside of a string: between characters, behind a backslash, or in a
`\u` escape with digits still to come and the value so far. -/
inductive EscapePhase where
  | none
  | backslash
  | unit (left value : Nat)
deriving DecidableEq, Repr

end RelStore.Json
