import ModelLint.Json.Value

namespace ModelLint.Json

/-! Records and tagged values in JSON.

A record is written as an object or as an array of its fields in order. Unknown
fields of an object are passed over, but a known field must not be repeated. In an
array the last fields may be missing. -/

/-- The fields of a record, by name. -/
abbrev Fields := List (String × Value)

def record? (names : List String) : Value → Option Fields
  | .object fields =>
      if names.all fun name => (fields.filter (·.1 == name)).length ≤ 1 then some fields else none
  | .array items => if items.length ≤ names.length then some (names.zip items) else none
  | _ => none

namespace Fields

/-- Reads a field that has to be there. -/
def required? {α : Type} (fields : Fields) (name : String) (read : Value → Option α) :
    Option α := do
  read (← fields.lookup name)

/-- Reads a field that stands for `default` when it is missing. -/
def optional? {α : Type} (fields : Fields) (name : String) (default : α)
    (read : Value → Option α) : Option α :=
  match fields.lookup name with
  | some value => read value
  | none => some default

end Fields

/-- A field that is left out when it holds nothing. -/
def presentField {α : Type} (name : String) (write : α → Value) : Option α → Fields
  | some value => [(name, write value)]
  | none => []

/-- The tag of a tagged value and what it is applied to. A tag alone is written as a
string, or as the only key of an object. -/
def tagged? : Value → Option (String × Option Value)
  | .string tag => some (tag, none)
  | .object [(tag, content)] => some (tag, some content)
  | _ => none

/-- Reads a tag that is applied to nothing. -/
def tag? (value : Value) : Option String := do
  match ← tagged? value with
  | (tag, none) => some tag
  | (tag, some .null) => some tag
  | _ => none

end ModelLint.Json
