import ModelLint.Severity
import ModelLint.Template

namespace ModelLint

/-! The identity of a rule and the wording of its findings. -/

structure Descriptor where
  /-- Short code, such as `CIG0011`. -/
  id : String
  /-- Name in kebab case, such as `set-load-fields`. -/
  name : String
  title : String
  /-- Template of the message, with numbered placeholders. -/
  message : String
  category : String
  /-- Severity of a finding unless the configuration gives another. -/
  severity : Severity
  /-- Whether the rule runs without being asked for. -/
  enabledByDefault : Bool
deriving DecidableEq, Repr, Inhabited

namespace Descriptor

/-- Whether `key` is the rule's code or its name, in any letter case. -/
def answersTo (rule : Descriptor) (key : String) : Bool :=
  Text.sameIgnoringCase key rule.id || Text.sameIgnoringCase key rule.name

def format (rule : Descriptor) (args : List String) : String :=
  Template.format rule.message args

/-- The finding that stands for a rule that failed. Its arguments are the code of
that rule and the reason. -/
def ruleFault : Descriptor where
  id := "CIG9999"
  name := "rule-fault"
  title := "A rule failed while analyzing this file"
  message := "Rule '\x7b0\x7d' failed: \x7b1\x7d"
  category := "Internal"
  severity := .warning
  enabledByDefault := true

end Descriptor

end ModelLint
