import ModelLint.Model.Codec
import ModelLint.Path
import ModelLint.Severity

namespace ModelLint

open ModelLint.Json (Value record? tag? presentField)
open ModelLint.Text

/-! Violations: findings as they are shown to the user. -/

/-- A place in a file. Line 0 stands for the file as a whole. -/
structure Location extends Span where
  file : String
deriving DecidableEq, Repr, Inhabited

namespace Location

def ofFile (file : String) : Location :=
  { file := file, line := 0, column := 0, offset := 0, length := 0 }

def isWholeFile (location : Location) : Bool :=
  location.line = 0

/-- The file, followed by line and column unless the whole file is meant. -/
def text (location : Location) : String :=
  if location.isWholeFile then location.file
  else location.file ++ ":" ++ String.ofList (digitsOf location.line) ++ ":" ++
    String.ofList (digitsOf location.column)

def toJson (location : Location) : Value :=
  .object [("file", .string location.file), ("line", .ofNat location.line),
    ("column", .ofNat location.column), ("offset", .ofNat location.offset),
    ("length", .ofNat location.length)]

def ofJson? (value : Value) : Option Location := do
  let fields ← record? ["file", "line", "column", "offset", "length"] value
  return {
    file := ← fields.required? "file" Value.string?
    line := ← fields.required? "line" (Value.word? spanBits)
    column := ← fields.required? "column" (Value.word? spanBits)
    offset := ← fields.required? "offset" (Value.word? spanBits)
    length := ← fields.required? "length" (Value.word? spanBits) }

end Location

structure Violation where
  /-- Code of the rule. -/
  code : String
  /-- Name of the rule. -/
  rule : String
  severity : Severity
  location : Location
  message : String
  category : String := ""
  help : Option String := none
deriving DecidableEq, Repr, Inhabited

namespace Violation

/-- Violations are ordered by path, then by line, column, code and message. -/
def compare (left right : Violation) : Ordering :=
  (Path.compare left.location.file right.location.file).then
    ((Ord.compare left.location.line right.location.line).then
      ((Ord.compare left.location.column right.location.column).then
        ((Ord.compare left.code right.code).then
          (Ord.compare left.message right.message))))

/-- Sorts violations; those that compare equal keep their order. -/
def sort (violations : List Violation) : List Violation :=
  violations.mergeSort fun left right => (compare left right).isLE

def line (violation : Violation) : String :=
  violation.location.text ++ ": " ++ violation.severity.label ++ " [" ++ violation.code ++ "] " ++
    violation.message

def paragraph (violation : Violation) : String :=
  violation.code ++ " " ++ violation.rule ++ " at " ++ violation.location.text ++ "\n  " ++
    violation.severity.label ++ ": " ++ violation.message ++ "\n" ++
    match violation.help with
    | some help => "  = help: " ++ help ++ "\n"
    | none => ""

/-- A violation as a mark in the source text. -/
structure Mark where
  message : String
  help : Option String
  label : String
  offset : Nat
  length : Nat
deriving DecidableEq, Repr, Inhabited

/-- The mark is labelled with the name of the rule. -/
def mark (violation : Violation) : Mark where
  message := "[" ++ violation.code ++ "] " ++ violation.message
  help := violation.help
  label := violation.rule
  offset := violation.location.offset
  length := violation.location.length

def toJson (violation : Violation) : Value :=
  .object ([("code", .string violation.code), ("rule", .string violation.rule),
    ("severity", .string violation.severity.label), ("location", violation.location.toJson),
    ("message", .string violation.message), ("category", .string violation.category)] ++
    presentField "help" .string violation.help)

def ofJson? (value : Value) : Option Violation := do
  let fields ← record?
    ["code", "rule", "severity", "location", "message", "category", "help"] value
  return {
    code := ← fields.required? "code" Value.string?
    rule := ← fields.required? "rule" Value.string?
    severity := ← fields.required? "severity" fun value => do Severity.ofLabel? (← tag? value)
    location := ← fields.required? "location" Location.ofJson?
    message := ← fields.required? "message" Value.string?
    category := ← fields.required? "category" Value.string?
    help := ← fields.optional? "help" none (Value.nullable? Value.string?) }

end Violation

end ModelLint
