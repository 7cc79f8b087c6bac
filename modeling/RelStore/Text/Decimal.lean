/-!
# Decimal numerals

A natural number is written with its decimal digits, without a sign and without leading
zeros. Main statement: the value of the digits of `n` is `n` (`value_digits`).
-/

namespace RelStore.Text.Decimal

/-- The character of a digit below ten. -/
def digit (d : Nat) : Char := Char.ofNat ('0'.toNat + d)

/-- The value of a digit character. -/
def digitValue (c : Char) : Nat := c.toNat - '0'.toNat

/-- The decimal digits of a number, the most significant first. -/
def digits (n : Nat) : List Char :=
  if n < 10 then [digit n] else digits (n / 10) ++ [digit (n % 10)]

/-- The number that a run of digits denotes. -/
def value (cs : List Char) : Nat := cs.foldl (fun n c => 10 * n + digitValue c) 0

/-- A number written in decimal. -/
def text (n : Nat) : String := String.ofList (digits n)

/-- The number below `bound` that a run of digits denotes; leading zeros are allowed, an
empty run is not. -/
def read? (bound : Nat) (cs : List Char) : Option Nat :=
  if cs.isEmpty || !cs.all Char.isDigit then none
  else if value cs < bound then some (value cs) else none

theorem digitValue_digit {d : Nat} (h : d < 10) : digitValue (digit d) = d := by
  have : ∀ d < 10, digitValue (digit d) = d := by decide
  exact this d h

theorem isDigit_digit {d : Nat} (h : d < 10) : (digit d).isDigit = true := by
  have : ∀ d < 10, (digit d).isDigit = true := by decide
  exact this d h

theorem value_append_singleton (cs : List Char) (c : Char) :
    value (cs ++ [c]) = 10 * value cs + digitValue c := by
  simp [value]

theorem value_digits (n : Nat) : value (digits n) = n := by
  induction n using digits.induct with
  | case1 n h => rw [digits, if_pos h]; simp [value, digitValue_digit h]
  | case2 n h ih =>
    rw [digits, if_neg h, value_append_singleton, ih, digitValue_digit (Nat.mod_lt _ (by decide))]
    omega

theorem isDigit_of_mem_digits {n : Nat} {c : Char} (h : c ∈ digits n) : c.isDigit = true := by
  induction n using digits.induct with
  | case1 n hn => rw [digits, if_pos hn] at h; simp_all [isDigit_digit hn]
  | case2 n hn ih =>
    rw [digits, if_neg hn] at h
    rcases List.mem_append.1 h with h | h
    · exact ih h
    · simp only [List.mem_singleton] at h
      exact h ▸ isDigit_digit (Nat.mod_lt _ (by decide))

theorem digits_ne_nil (n : Nat) : digits n ≠ [] := by
  rw [digits]; split <;> simp

theorem read?_digits {bound n : Nat} (h : n < bound) : read? bound (digits n) = some n := by
  have hd : (digits n).all Char.isDigit = true := by
    simp only [List.all_eq_true]; exact fun c hc => isDigit_of_mem_digits hc
  simp [read?, digits_ne_nil, hd, value_digits, h]

end RelStore.Text.Decimal
