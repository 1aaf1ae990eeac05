import ModelLint.Text.Magnitude
import ModelLint.Text.Search
import ModelLint.Toml.DateTime
import ModelLint.Toml.Value

namespace ModelLint.Toml

open ModelLint.Text

/-! Values that are written as one word: numbers, truth values, dates and times. -/

/-- The digits of a number, whose groups may be parted by single underscores. -/
def groupedDigits? (isDigit : Char → Bool) (text : List Char) : Option (List Char) :=
  let groups := pieces '_' text
  if groups.all fun group => !group.isEmpty && group.all isDigit then some groups.flatten else none

/-- The digits of a decimal number, in which a zero leads only when it stands alone. -/
def wholeDigits? (text : List Char) : Option (List Char) := do
  let digits ← groupedDigits? Char.isDigit text
  if digits.head? = some '0' ∧ digits ≠ ['0'] then none else some digits

/-- Parts a sign from the text behind it; the flag tells whether it is a minus. -/
def splitSign : List Char → Bool × List Char
  | '-' :: rest => (true, rest)
  | '+' :: rest => (false, rest)
  | text => (false, text)

/-- The integers that can be kept take 64 bits. -/
def integerInRange? (value : Int) : Option Value :=
  if -0x8000000000000000 ≤ value ∧ value < 0x8000000000000000 then some (.integer value) else none

/-- An integer in hexadecimal, octal or binary digits. -/
def integerInBase? (base : Nat) (text : List Char) : Option Value := do
  let digits ← groupedDigits? (fun c => (hexDigit? c).any (· < base)) text
  let value := digits.foldl (fun value digit => value * base + (hexDigit? digit).getD 0) 0
  integerInRange? value

def integer? : List Char → Option Value
  | '0' :: 'x' :: rest => integerInBase? 16 rest
  | '0' :: 'o' :: rest => integerInBase? 8 rest
  | '0' :: 'b' :: rest => integerInBase? 2 rest
  | text => do
      let (negative, unsigned) := splitSign text
      let magnitude : Int := digitsValue (← wholeDigits? unsigned)
      integerInRange? (if negative then -magnitude else magnitude)

/-- The power of ten behind an exponent mark. -/
def exponent? (text : List Char) : Option Int := do
  let (negative, unsigned) := splitSign text
  let magnitude : Int := digitsValue (← groupedDigits? Char.isDigit unsigned)
  return if negative then -magnitude else magnitude

/-- A number with a fraction, an exponent or both. Of the numbers that are too large,
only the negative ones can be kept. -/
def float? (text : List Char) : Option Value := do
  let (negative, unsigned) := splitSign text
  if unsigned = "inf".toList ∨ unsigned = "nan".toList then return .float
  let (body, exponent) := match (cut? 'e' unsigned).or (cut? 'E' unsigned) with
    | some (body, behind) => (body, some behind)
    | none => (unsigned, none)
  let (whole, fraction) := match cut? '.' body with
    | some (whole, behind) => (whole, some behind)
    | none => (body, none)
  if exponent.isNone ∧ fraction.isNone then none
  let wholeDigits ← wholeDigits? whole
  let fractionDigits ← (fraction.map (groupedDigits? Char.isDigit)).getD (some [])
  let power ← (exponent.map exponent?).getD (some 0)
  if !negative && isTooLarge (digitsValue (wholeDigits ++ fractionDigits))
      (power - fractionDigits.length) then none
  return .float

/-- A date, a time of day, or both. -/
def moment? (text : List Char) : Option Value :=
  (dateTime? .strict text).map fun normal => .datetime (String.ofList normal)

def scalar? (word : List Char) : Option Value :=
  if word = "true".toList then some (.boolean true)
  else if word = "false".toList then some (.boolean false)
  else (moment? word).or ((float? word).or (integer? word))

end ModelLint.Toml
