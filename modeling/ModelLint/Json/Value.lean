namespace ModelLint.Json

/-! JSON values.

Objects keep their fields in the order they were written in, repeated keys
included, because a record must not repeat a field it knows. Integers are kept
apart from numbers with a fraction or an exponent, and zero from negative zero,
because an id or a position has to be written as a plain natural number. -/

inductive Number where
  /-- A sign and digits alone. -/
  | integer (negative : Bool) (magnitude : Nat)
  /-- `mantissa * 10 ^ exponent`, written with a fraction or an exponent. -/
  | decimal (negative : Bool) (mantissa : Nat) (exponent : Int)
deriving DecidableEq, Repr, Inhabited

inductive Value where
  | null
  | bool (value : Bool)
  | number (value : Number)
  | string (value : String)
  | array (items : List Value)
  | object (fields : List (String × Value))
  /-- A string, or an object with a key, in which half of a surrogate pair stands
  alone. It denotes no text: it can be passed over, and not be read. -/
  | garbled
deriving Repr, Inhabited

namespace Value

def ofNat (value : Nat) : Value :=
  .number (.integer false value)

/-- The natural number that a value is written as. -/
def nat? : Value → Option Nat
  | number (.integer false magnitude) => some magnitude
  | _ => none

/-- A natural number below `2 ^ bits`. -/
def word? (bits : Nat) (value : Value) : Option Nat :=
  value.nat?.filter (· < Nat.pow 2 bits)

def string? : Value → Option String
  | string value => some value
  | _ => none

def bool? : Value → Option Bool
  | bool value => some value
  | _ => none

def array? : Value → Option (List Value)
  | array items => some items
  | _ => none

def object? : Value → Option (List (String × Value))
  | object fields => some fields
  | _ => none

/-- Reads every item of an array. -/
def listOf? {α : Type} (read : Value → Option α) (value : Value) : Option (List α) := do
  (← value.array?).mapM read

/-- Reads a value that may also be `null`, for nothing. -/
def nullable? {α : Type} (read : Value → Option α) : Value → Option (Option α)
  | null => some none
  | value => (read value).map some

end Value

end ModelLint.Json
