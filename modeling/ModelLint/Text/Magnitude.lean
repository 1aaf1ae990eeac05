import ModelLint.Text.Digits

namespace ModelLint.Text

/-! Numbers that are kept in 64 bits with a floating point. -/

/-- From here on numbers are rounded to infinity: the middle between the greatest finite
number and the next power of two. -/
def overflowBound : Nat :=
  Nat.pow 2 1024 - Nat.pow 2 970

/-- The nearest number of at most 53 significant binary digits. Of two that are equally
near it is the one whose last digit is even. -/
def nearest (value : Nat) : Nat :=
  let unit := Nat.pow 2 (value.log2 + 1 - 53)
  let digits := value / unit
  let rest := value % unit
  if unit < 2 * rest ∨ (2 * rest = unit ∧ digits % 2 = 1) then (digits + 1) * unit
  else digits * unit

/-- Whether `mantissa * 10 ^ exponent` is rounded to infinity. The number of digits
settles all numbers far from the bound. -/
def isTooLarge (mantissa : Nat) (exponent : Int) : Bool :=
  let scale := exponent + (digitsOf mantissa).length
  if mantissa = 0 ∨ scale < 300 then false
  else if 320 < scale then true
  else if 0 ≤ exponent then overflowBound ≤ mantissa * Nat.pow 10 exponent.toNat
  else overflowBound * Nat.pow 10 (-exponent).toNat ≤ mantissa

/-- The leading digits of a number that make up a word of 64 bits, with the number of
digits behind them. -/
def leadingWord (value : Nat) : Nat × Nat :=
  let length := (digitsOf value).length
  let word := value / Nat.pow 10 (length - 20)
  if word < 0x10000000000000000 then (word, length - 20) else (word / 10, length - 19)

/-- Whether `mantissa * 10 ^ exponent` is too large for a product of two rounded factors:
the leading digits of the mantissa, and the power of ten that they still lack. -/
def isTooLargeProduct (mantissa : Nat) (exponent : Int) : Bool :=
  let (word, dropped) := leadingWord mantissa
  let power := exponent + dropped
  if word = 0 ∨ power < 0 then false
  else 308 < power || overflowBound ≤ nearest word * nearest (Nat.pow 10 power.toNat)

end ModelLint.Text
