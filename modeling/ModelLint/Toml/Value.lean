namespace ModelLint.Toml

/-! TOML values.

Only what a configuration can ask for is kept: of a floating-point number, that it is
one, and of a date or time its text. -/

inductive Value where
  | string (value : String)
  | integer (value : Int)
  | float
  | boolean (value : Bool)
  | datetime (text : String)
  | array (items : List Value)
  /-- The entries stand in the order in which their keys first occur. -/
  | table (entries : List (String × Value))
deriving Repr, Inhabited

namespace Value

def string? : Value → Option String
  | string value => some value
  | _ => none

def integer? : Value → Option Int
  | integer value => some value
  | _ => none

def boolean? : Value → Option Bool
  | boolean value => some value
  | _ => none

def array? : Value → Option (List Value)
  | array items => some items
  | _ => none

/-- The key under which the text of a date is found. -/
def dateKey : String := "$__toml_private_datetime"

/-- The entries of a table. A date is a table too, with its text as the only entry. -/
def entries? : Value → Option (List (String × Value))
  | table entries => some entries
  | datetime text => some [(dateKey, string text)]
  | _ => none

/-- Reads every item of an array. -/
def listOf? {α : Type} (read : Value → Option α) (value : Value) : Option (List α) := do
  (← value.array?).mapM read

end Value

end ModelLint.Toml
