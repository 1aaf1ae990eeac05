import ModelLint.Text.Ascii

namespace ModelLint

/-! How grave a finding is. -/

inductive Severity where
  | info
  | warning
  | error
deriving DecidableEq, Repr, Inhabited

namespace Severity

/-- Severities grow from `info` through `warning` to `error`. -/
def rank : Severity → Nat
  | info => 0
  | warning => 1
  | error => 2

def label : Severity → String
  | info => "info"
  | warning => "warning"
  | error => "error"

/-- The severity with exactly this label. -/
def ofLabel? (label : String) : Option Severity :=
  [info, warning, error].find? fun severity => severity.label == label

/-- Why a text names no severity. The text is quoted in lower case. -/
def unknownMessage (lowered : String) : String :=
  "unknown severity `" ++ lowered ++ "`. Valid values: error, warning, info"

/-- Reads a severity, in any letter case; the error is the message to show. -/
def parse (text : String) : Except String Severity :=
  let lowered := Text.lower text
  match ofLabel? lowered with
  | some severity => .ok severity
  | none => .error (unknownMessage lowered)

end Severity

end ModelLint
