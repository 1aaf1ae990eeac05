import ModelLint.Json.Value
import ModelLint.Text.Digits

namespace ModelLint.Json

open ModelLint.Text

/-! Writing values as text.

The compact layout has no blanks. The spread layout puts every item and field on
a line of its own, two blanks deeper than the container, and a blank behind each
colon; an empty container stays on one line. -/

inductive Layout where
  | compact
  | spread
deriving DecidableEq, Repr, Inhabited

namespace Layout

/-- The break before a part of a container at this depth. -/
def lineBreak (depth : Nat) : Layout → List Char
  | compact => []
  | spread => '\n' :: List.replicate (2 * depth) ' '

def colon : Layout → List Char
  | compact => [':']
  | spread => [':', ' ']

end Layout

/-- A character inside a string literal. Quotes, backslashes and control characters
are escaped, and all else stands for itself. -/
def escape (c : Char) : List Char :=
  if c = '"' then ['\\', '"']
  else if c = '\\' then ['\\', '\\']
  else if c = '\x08' then ['\\', 'b']
  else if c = '\x0c' then ['\\', 'f']
  else if c = '\n' then ['\\', 'n']
  else if c = '\r' then ['\\', 'r']
  else if c = '\t' then ['\\', 't']
  else if c.toNat < 0x20 then
    ['\\', 'u', '0', '0', hexDigit (c.toNat / 16), hexDigit (c.toNat % 16)]
  else [c]

def writeString (text : String) : List Char :=
  '"' :: (text.toList.flatMap escape ++ ['"'])

def writeNumber : Number → List Char
  | .integer negative magnitude => sign negative ++ digitsOf magnitude
  | .decimal negative mantissa exponent =>
      sign negative ++ digitsOf mantissa ++ 'e' :: (sign (exponent < 0) ++ digitsOf exponent.natAbs)
where
  sign (negative : Bool) : List Char := if negative then ['-'] else []

mutual

def writeValue (layout : Layout) (depth : Nat) : Value → List Char
  | .null => ['n', 'u', 'l', 'l']
  | .bool true => ['t', 'r', 'u', 'e']
  | .bool false => ['f', 'a', 'l', 's', 'e']
  | .number value => writeNumber value
  | .string value => writeString value
  | .array [] => ['[', ']']
  | .array (first :: rest) =>
      '[' :: (layout.lineBreak (depth + 1) ++ writeValue layout (depth + 1) first ++
        writeItems layout (depth + 1) rest ++ layout.lineBreak depth ++ [']'])
  | .object [] => ['\x7b', '\x7d']
  | .object ((key, first) :: rest) =>
      '\x7b' :: (layout.lineBreak (depth + 1) ++ writeString key ++ layout.colon ++
        writeValue layout (depth + 1) first ++ writeFields layout (depth + 1) rest ++
        layout.lineBreak depth ++ ['\x7d'])
  | .garbled => ['n', 'u', 'l', 'l']

/-- The items behind the first one of an array. -/
def writeItems (layout : Layout) (depth : Nat) : List Value → List Char
  | [] => []
  | item :: rest =>
      ',' :: (layout.lineBreak depth ++ writeValue layout depth item ++
        writeItems layout depth rest)

/-- The fields behind the first one of an object. -/
def writeFields (layout : Layout) (depth : Nat) : List (String × Value) → List Char
  | [] => []
  | (key, value) :: rest =>
      ',' :: (layout.lineBreak depth ++ writeString key ++ layout.colon ++
        writeValue layout depth value ++ writeFields layout depth rest)

end

/-- The text of a value in the given layout. -/
def write (layout : Layout) (value : Value) : String :=
  String.ofList (writeValue layout 0 value)

end ModelLint.Json
