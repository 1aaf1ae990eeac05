import ModelLint.Text.Digits

namespace ModelLint.Toml

open ModelLint.Text

/-! Dates and times.

A date, a time of day, or both, and then maybe with an offset from universal time, are kept
as a text in normal form: a capital T between date and time, a fraction of a second without
zeros at its end, and an offset of zero with a plus sign. -/

/-- The greatest numbers that a time and an offset may be written with. -/
structure ClockLimits where
  hour : Nat
  offsetHour : Nat
  offsetMinute : Nat
deriving DecidableEq, Repr, Inhabited

/-- The limits for a value of its own. -/
def ClockLimits.strict : ClockLimits := ⟨23, 23, 59⟩

/-- The limits for the text of a date in a string. -/
def ClockLimits.lax : ClockLimits := ⟨24, 99, 99⟩

/-- The number that two digits spell, if it is at most `most`. -/
def twoDigits? (most : Nat) (a b : Char) : Option Nat :=
  if a.isDigit ∧ b.isDigit ∧ digitsValue [a, b] ≤ most then some (digitsValue [a, b]) else none

def daysIn (year month : Nat) : Nat :=
  let isLeap := year % 4 = 0 ∧ (year % 100 ≠ 0 ∨ year % 400 = 0)
  if month = 2 then if isLeap then 29 else 28
  else if month ∈ [4, 6, 9, 11] then 30
  else 31

/-- A date, with what stands behind it. -/
def date? : List Char → Option (List Char × List Char)
  | y₁ :: y₂ :: y₃ :: y₄ :: '-' :: m₁ :: m₂ :: '-' :: d₁ :: d₂ :: rest => do
      let year := [y₁, y₂, y₃, y₄]
      if !year.all Char.isDigit then none
      let month ← twoDigits? 12 m₁ m₂
      let day ← twoDigits? 31 d₁ d₂
      if month = 0 ∨ day = 0 ∨ daysIn (digitsValue year) month < day then none
      return (year ++ ['-', m₁, m₂, '-', d₁, d₂], rest)
  | _ => none

/-- The normal form of the digits of a fraction, of which nine count. -/
def fractionText (digits : List Char) : List Char :=
  match ((digits.take 9).reverse.dropWhile (· = '0')).reverse with
  | [] => []
  | kept => '.' :: kept

/-- A time of day, with what stands behind it. A minute may have a leap second. -/
def time? (limits : ClockLimits) : List Char → Option (List Char × List Char)
  | h₁ :: h₂ :: ':' :: m₁ :: m₂ :: ':' :: s₁ :: s₂ :: rest => do
      let _ ← twoDigits? limits.hour h₁ h₂
      let _ ← twoDigits? 59 m₁ m₂
      let _ ← twoDigits? 60 s₁ s₂
      let clock := [h₁, h₂, ':', m₁, m₂, ':', s₁, s₂]
      match rest with
      | '.' :: fraction =>
          match fraction.span Char.isDigit with
          | ([], _) => none
          | (digits, behind) => return (clock ++ fractionText digits, behind)
      | _ => return (clock, rest)
  | _ => none

/-- The offset that a text spells: none at all, universal time itself, or up to a day. -/
def offset? (limits : ClockLimits) : List Char → Option (List Char)
  | [] => some []
  | [c] => if c = 'Z' ∨ c = 'z' then some ['Z'] else none
  | [sign, h₁, h₂, ':', m₁, m₂] => do
      if sign ≠ '+' ∧ sign ≠ '-' then none
      let minutes := 60 * (← twoDigits? limits.offsetHour h₁ h₂) +
        (← twoDigits? limits.offsetMinute m₁ m₂)
      if 24 * 60 < minutes then none
      let two (value : Nat) := digitsOf (value / 10) ++ digitsOf (value % 10)
      return (if minutes = 0 then '+' else sign) :: two (minutes / 60) ++ ':' :: two (minutes % 60)
  | _ => none

/-- Whether a text is a date alone. -/
def isDate (text : List Char) : Bool :=
  (date? text).any (·.2.isEmpty)

/-- The normal form of a date, a time of day, or both. -/
def dateTime? (limits : ClockLimits) (text : List Char) : Option (List Char) :=
  match date? text with
  | some (date, []) => some date
  | some (date, mark :: rest) => do
      if mark ≠ 'T' ∧ mark ≠ 't' ∧ mark ≠ ' ' then none
      let (time, behind) ← time? limits rest
      return date ++ 'T' :: time ++ (← offset? limits behind)
  | none =>
      match time? limits text with
      | some (time, []) => some time
      | _ => none

end ModelLint.Toml
