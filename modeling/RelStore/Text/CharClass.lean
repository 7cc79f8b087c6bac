import RelStore.Text.CharTable

/-!
# Classes of characters

Letters, numerals and blanks, by the Unicode properties for all characters. Below 128 the
classes are the familiar ones and are decided without the tables.
-/

namespace RelStore.Text

/-- A letter of any script. -/
def isAlphabetic (c : Char) : Bool :=
  if c.val < 128 then c.isAlpha else alphabetic.contains c.toNat

/-- A digit or another numeral of any script. -/
def isNumeric (c : Char) : Bool :=
  if c.val < 128 then c.isDigit else numeric.contains c.toNat

/-- A character that can stand inside a word: a letter, a numeral or an underscore. -/
def isWordChar (c : Char) : Bool := isAlphabetic c || isNumeric c || c == '_'

/-- White space of any kind, line ends included. -/
def isBlank (c : Char) : Bool := whiteSpace.contains c.toNat

/-- The text without the blanks at its start. -/
def trimStart (cs : List Char) : List Char := cs.dropWhile isBlank

/-- The text without the blanks at its end. -/
def trimEnd (cs : List Char) : List Char := (cs.reverse.dropWhile isBlank).reverse

/-- The text without the blanks at either end. -/
def trim (cs : List Char) : List Char := trimEnd (trimStart cs)

theorem isWordChar_of_isAlphabetic {c : Char} (h : isAlphabetic c = true) :
    isWordChar c = true := by
  simp [isWordChar, h]

end RelStore.Text
