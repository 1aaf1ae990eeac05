import ModelLint.Violation

namespace ModelLint

open ModelLint.Json (Value record?)
open ModelLint.Text

/-! What an analysis has found. -/

structure Report where
  violations : List Violation := []
  filesChecked : Nat := 0
deriving DecidableEq, Repr, Inhabited

namespace Report

def push (report : Report) (violation : Violation) : Report :=
  { report with violations := report.violations ++ [violation] }

/-- The findings of two reports. -/
def append (report other : Report) : Report where
  violations := report.violations ++ other.violations
  filesChecked := report.filesChecked + other.filesChecked

/-- The number of files up to which a report can count. -/
def filesLimit : Nat := Nat.pow 2 spanBits - 1

/-- The findings of two reports, if their files can be counted. -/
def append? (report other : Report) : Option Report :=
  if report.filesChecked + other.filesChecked ≤ filesLimit then some (report.append other) else none

def sort (report : Report) : Report :=
  { report with violations := Violation.sort report.violations }

def withSeverity (report : Report) (severity : Severity) : List Violation :=
  report.violations.filter (·.severity = severity)

def count (report : Report) (severity : Severity) : Nat :=
  (report.withSeverity severity).length

def hasErrors (report : Report) : Bool :=
  report.violations.any (·.severity = .error)

/-- Whether some violation has at least the given severity. -/
def reaches (report : Report) (severity : Severity) : Bool :=
  report.violations.any fun violation => severity.rank ≤ violation.severity.rank

/-- The last line of a report. -/
def summary (report : Report) : String :=
  let number (count : Nat) := String.ofList (digitsOf count)
  "Found " ++ number (report.count .error) ++ " error(s), " ++ number (report.count .warning) ++
    " warning(s), " ++ number (report.count .info) ++ " info(s) in " ++
    number report.filesChecked ++ " file(s)"

/-- The whole report: a paragraph for each violation, each behind an empty line, and the
summary. -/
def text (report : Report) : String :=
  String.join (report.violations.map fun violation => violation.paragraph ++ "\n") ++
    "\n" ++ report.summary ++ "\n"

def toJson (report : Report) : Value :=
  .object [("violations", .array (report.violations.map Violation.toJson)),
    ("files_checked", .ofNat report.filesChecked)]

def ofJson? (value : Value) : Option Report := do
  let fields ← record? ["violations", "files_checked"] value
  return {
    violations := ← fields.required? "violations" (Value.listOf? Violation.ofJson?)
    filesChecked := ← fields.required? "files_checked" (Value.word? spanBits) }

end Report

end ModelLint
