import ModelLint.Config
import ModelLint.Rules.CalcFields
import ModelLint.Rules.DataClassification
import ModelLint.Rules.MissingCaption
import ModelLint.Rules.ProjectStructure
import ModelLint.Rules.SetLoadFields
import ModelLint.Rules.SourceExpression
import ModelLint.Rules.TextBuilder
import ModelLint.Rules.VarParameter

namespace ModelLint

/-! The rules there are, and the sets of them that can be chosen by name. -/

namespace Catalog

/-- Every rule with its default options, ordered by code. -/
def rules (settings : SettingsSource) : List Rule :=
  [Rules.ProjectStructure.rule Rules.ProjectStructure.defaultOrganization settings,
    Rules.MissingCaption.rule,
    Rules.DataClassification.rule settings,
    Rules.VarParameter.rule,
    Rules.SetLoadFields.rule Rules.SetLoadFields.defaultThreshold,
    Rules.CalcFields.rule,
    Rules.TextBuilder.rule,
    Rules.SourceExpression.rule]

/-- Every descriptor, ordered by code; the last one is that of failed rules. -/
def descriptors : List Descriptor :=
  [Rules.ProjectStructure.descriptor, Rules.MissingCaption.descriptor,
    Rules.DataClassification.descriptor, Rules.VarParameter.descriptor,
    Rules.SetLoadFields.descriptor, Rules.CalcFields.descriptor, Rules.TextBuilder.descriptor,
    Rules.SourceExpression.descriptor, Descriptor.ruleFault]

/-- The descriptor with this code or name. -/
def find? (key : String) : Option Descriptor :=
  descriptors.find? (·.answersTo key)

/-- The descriptors are those of the rules, followed by that of failed rules. -/
theorem descriptors_eq (settings : SettingsSource) :
    descriptors = (rules settings).map (·.descriptor) ++ [Descriptor.ruleFault] := rfl

end Catalog

/-- A named choice of rules. -/
inductive Preset where
  /-- The rules that run without being asked for. -/
  | recommended
  /-- Every rule. -/
  | strict
  /-- A first choice for projects that take up the rules step by step. -/
  | minimal
deriving DecidableEq, Repr, Inhabited

namespace Preset

def rules (settings : SettingsSource) : Preset → List Rule
  | recommended => (Catalog.rules settings).filter (·.descriptor.enabledByDefault)
  | strict => Catalog.rules settings
  | minimal =>
      [Rules.SetLoadFields.rule Rules.SetLoadFields.defaultThreshold,
        Rules.SourceExpression.rule,
        Rules.ProjectStructure.rule Rules.ProjectStructure.defaultOrganization settings]

/-- Reads the name of a preset, in any letter case; the error is the message to show. -/
def parse (text : String) : Except String Preset :=
  match Text.lower text with
  | "recommended" => .ok recommended
  | "strict" => .ok strict
  | "minimal" => .ok minimal
  | other => .error ("unknown preset '" ++ other ++ "' (expected recommended, strict or minimal)")

end Preset

namespace Config

def presetOf (config : Config) : Except ConfigError Preset :=
  match config.preset with
  | none => .ok .recommended
  | some name => (Preset.parse name).mapError (ConfigError.invalid "preset")

/-- The rule with the options that its block gives. -/
def withOptions (config : Config) (settings : SettingsSource) (rule : Rule) :
    Except ConfigError Rule :=
  match config.blockFor? rule.descriptor with
  | none => .ok rule
  | some block =>
      if rule.descriptor.id = Rules.SetLoadFields.descriptor.id then
        let threshold := block.integer "field_threshold" Rules.SetLoadFields.defaultThreshold
        if threshold < 0 then
          .error (.invalid ("rules." ++ rule.descriptor.name ++ ".field_threshold")
            "must not be negative")
        else .ok (Rules.SetLoadFields.rule threshold.toNat)
      else if rule.descriptor.id = Rules.ProjectStructure.descriptor.id then
        .ok (Rules.ProjectStructure.rule
          (block.string "organization" Rules.ProjectStructure.defaultOrganization) settings)
      else .ok rule

/-- The rules that a configuration chooses, with their options. Whether a rule is
enabled is not asked here. -/
def selectRules (config : Config) (settings : SettingsSource) : Except ConfigError (List Rule) := do
  (← config.presetOf).rules settings |>.mapM (config.withOptions settings)

end Config

end ModelLint
