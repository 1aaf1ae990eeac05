namespace ModelLint.Text

/-! Natural numbers in decimal. -/

/-- The number that a list of decimal digits denotes. -/
def digitsValue (digits : List Char) : Nat :=
  digits.foldl (fun value digit => 10 * value + (digit.toNat - '0'.toNat)) 0

/-- The digits of a number, without leading zeros. -/
def digitsOf (value : Nat) : List Char :=
  Nat.toDigits 10 value

/-- The value of a hexadecimal digit, in either letter case. -/
def hexDigit? (c : Char) : Option Nat :=
  if c.isDigit then some (c.toNat - '0'.toNat)
  else if 'a' ≤ c ∧ c ≤ 'f' then some (c.toNat - 'a'.toNat + 10)
  else if 'A' ≤ c ∧ c ≤ 'F' then some (c.toNat - 'A'.toNat + 10)
  else none

/-- A hexadecimal digit, in lower case. -/
def hexDigit (value : Nat) : Char :=
  "0123456789abcdef".toList.getD value '0'

end ModelLint.Text
