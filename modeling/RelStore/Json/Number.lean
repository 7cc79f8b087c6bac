import RelStore.Text.Decimal

/-!
# Numbers as they are written

A number keeps its digits. Two questions are asked of it: whether it is a natural number of at
most 64 bits written plainly, without sign, fraction and exponent (`Number.natural?`), and
whether it lies in the range of double precision (`Number.inRange`).
-/

namespace RelStore.Json

/-- A number by its parts. -/
structure Number where
  negative : Bool := false
  whole : List Char := []
  /-- The digits behind the point; without a point there are none. -/
  fraction : Option (List Char) := none
  /-- Whether the exponent has a minus sign, and its digits. -/
  exponent : Option (Bool × List Char) := none
deriving DecidableEq, Repr

namespace Number

/-- The number written as `n`. -/
def ofNat (n : Nat) : Number := { whole := Text.Decimal.digits n }

/-- The natural number, if it is written plainly and fits 64 bits. -/
def natural? (number : Number) : Option UInt64 :=
  if number.negative || number.fraction.isSome || number.exponent.isSome then none
  else (Text.Decimal.read? UInt64.size number.whole).map .ofNat

/-! ## The range of double precision -/

/-- A decimal significand of at most 64 bits with its power of ten. -/
structure Scaled where
  significand : Nat := 0
  power : Int := 0
  /-- Whether a digit did not fit. -/
  full : Bool := false

namespace Scaled

/-- Takes one more digit of the whole part. A digit that does not fit only raises the power,
and so do those behind it. -/
def pushWhole (scaled : Scaled) (digit : Nat) : Scaled :=
  let next := 10 * scaled.significand + digit
  if scaled.full || UInt64.size ≤ next then { scaled with power := scaled.power + 1, full := true }
  else { scaled with significand := next }

/-- Takes one more digit behind the point. A digit that does not fit is dropped with those
behind it. -/
def pushFraction (scaled : Scaled) (digit : Nat) : Scaled :=
  let next := 10 * scaled.significand + digit
  if scaled.full || UInt64.size ≤ next then { scaled with full := true }
  else { scaled with significand := next, power := scaled.power - 1 }

end Scaled

/-- The significand and the power of ten of a number. -/
def scaled (number : Number) : Scaled :=
  let whole : Scaled :=
    (number.whole.map Text.Decimal.digitValue).foldl Scaled.pushWhole {}
  let read := ((number.fraction.getD []).map Text.Decimal.digitValue).foldl
    Scaled.pushFraction { whole with full := false }
  match number.exponent with
  | none => read
  | some (negative, digits) =>
    let exponent : Int := Text.Decimal.value digits
    { read with power := if negative then read.power - exponent else read.power + exponent }

/-- The nearest number with 53 significant bits; a tie goes to the even neighbour. -/
def roundToDouble (n : Nat) : Nat :=
  if n < Nat.pow 2 53 then n
  else
    let unit := Nat.pow 2 (n.log2 - 52)
    let below := n / unit
    let remainder := n % unit
    let up := unit < 2 * remainder || (unit = 2 * remainder && below % 2 = 1)
    (if up then below + 1 else below) * unit

/-- The least magnitude that double precision rounds to infinity. -/
def overflowBound : Nat := Nat.pow 2 1024 - Nat.pow 2 970

/-- Whether the number lies in the range of double precision. The significand and the power of
ten are each rounded before they are multiplied; a power above the 308th is out of range, and
zero never is. -/
def inRange (number : Number) : Bool :=
  let s := number.scaled
  s.significand = 0 || s.power < 0 ||
    (s.power ≤ 308 &&
      roundToDouble s.significand * roundToDouble (Nat.pow 10 s.power.toNat) < overflowBound)

end Number

/-- How far a number has been read, and so what may come next. -/
inductive NumberPhase where
  | minus
  | zero
  | whole
  | point
  | fraction
  | mark
  | sign
  | exponent
deriving DecidableEq, Repr

namespace NumberPhase

/-- Whether a number may end here. -/
def complete : NumberPhase → Bool
  | zero | whole | fraction | exponent => true
  | minus | point | mark | sign => false

/-- Takes one more character of a number, unless the number does not go on with it. -/
def push (phase : NumberPhase) (number : Number) (c : Char) : Option (NumberPhase × Number) :=
  match phase with
  | minus =>
    if c = '0' then some (zero, { number with whole := ['0'] })
    else if c.isDigit then some (whole, { number with whole := [c] })
    else none
  | zero => afterWhole
  | whole =>
    if c.isDigit then some (whole, { number with whole := number.whole ++ [c] })
    else afterWhole
  | point =>
    if c.isDigit then some (fraction, { number with fraction := some [c] }) else none
  | fraction =>
    if c.isDigit then
      some (fraction, { number with fraction := number.fraction.map (· ++ [c]) })
    else if c = 'e' || c = 'E' then some (mark, number)
    else none
  | mark =>
    if c = '+' then some (sign, { number with exponent := some (false, []) })
    else if c = '-' then some (sign, { number with exponent := some (true, []) })
    else if c.isDigit then some (exponent, { number with exponent := some (false, [c]) })
    else none
  | sign => exponentDigit
  | exponent => exponentDigit
where
  afterWhole : Option (NumberPhase × Number) :=
    if c = '.' then some (point, number)
    else if c = 'e' || c = 'E' then some (mark, number)
    else none
  exponentDigit : Option (NumberPhase × Number) :=
    if c.isDigit then
      some (exponent, { number with
        exponent := number.exponent.map fun (negative, digits) => (negative, digits ++ [c]) })
    else none

end NumberPhase

end RelStore.Json
