import ModelLint.Rule
import ModelLint.Rules.Calls

namespace ModelLint.Rules.CalcFields

/-! Calculated fields should be fetched with the record, not one by one. -/

def descriptor : Descriptor where
  id := "CIG0012"
  name := "prefer-set-auto-calc-fields"
  title := "Use SetAutoCalcFields instead of CalcFields"
  message := "Use SetAutoCalcFields instead of CalcFields"
  category := "Performance"
  severity := .warning
  enabledByDefault := true

def check (model : Model) (invocation : NodeId) : Except MissingId (List Finding) := do
  let some (_, method) ← model.builtinCall invocation | return []
  if !Text.sameIgnoringCase method.name "CalcFields" then return []
  if ← model.inObsoleteObject invocation then return []
  return [← model.findingAt invocation []]

def rule : Rule where
  descriptor := descriptor
  interests := [.node .invocation]
  onNode context id := .ofCheck (check context.model id)

end ModelLint.Rules.CalcFields
