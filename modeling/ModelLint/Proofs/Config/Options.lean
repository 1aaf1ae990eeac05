import ModelLint.Catalog
import ModelLint.Proofs.Analysis.Selection
import ModelLint.Proofs.Config

namespace ModelLint

/-! The options of the rules.

Two rules have an option. Its value is the one that the first block for the rule gives, provided it
is of the right type, and the default one otherwise. -/

open Toml (Value)

/-- Every rule, with these values for the options. -/
def Catalog.rulesWith (organization : String) (threshold : Nat) (settings : SettingsSource) :
    List Rule :=
  [Rules.ProjectStructure.rule organization settings, Rules.MissingCaption.rule,
    Rules.DataClassification.rule settings, Rules.VarParameter.rule,
    Rules.SetLoadFields.rule threshold, Rules.CalcFields.rule, Rules.TextBuilder.rule,
    Rules.SourceExpression.rule]

namespace Config

/-- The first block for a rule gives an option a value. -/
def Gives (config : Config) (rule : Descriptor) (key : String) (value : Value) : Prop :=
  ∃ block, FirstOf (IsFor rule) config.rules (some block) ∧ block.options.lookup key = some value

/-- The value of an option that can have values of one type. -/
inductive Sets {α : Type} (config : Config) (rule : Descriptor) (key : String) (wrap : α → Value)
    (default : α) : α → Prop where
  | given {value : α} (gives : config.Gives rule key (wrap value)) :
      Sets config rule key wrap default value
  | missing (none : ∀ value, ¬ config.Gives rule key (wrap value)) :
      Sets config rule key wrap default default

/-- The options of a configuration can be taken. The threshold is the only one that could not. -/
def ValidOptions (config : Config) : Prop :=
  ∀ threshold, config.Gives Rules.SetLoadFields.descriptor "field_threshold" (.integer threshold) →
    0 ≤ threshold

/-- Some rules are all the rules there are, with the options of a configuration. -/
def Options (config : Config) (settings : SettingsSource) (rules : List Rule) : Prop :=
  ∃ (organization : String) (threshold : Nat),
    config.Sets Rules.ProjectStructure.descriptor "organization" .string "CIG" organization ∧
    config.Sets Rules.SetLoadFields.descriptor "field_threshold" .integer 10 (threshold : Int) ∧
    rules = Catalog.rulesWith organization threshold settings

variable {config : Config} {settings : SettingsSource} {rule : Descriptor} {key : String}

theorem gives_iff {value : Value} :
    config.Gives rule key value ↔
      (config.blockFor? rule).bind (·.options.lookup key) = some value := by
  simp only [Gives, firstOf_isFor_iff, Option.bind_eq_some_iff]

theorem sets_iff {α : Type} {wrap : α → Value} {default value : α} (read : Value → Option α)
    (reads : ∀ given value, read given = some value ↔ given = wrap value) :
    config.Sets rule key wrap default value ↔
      (((config.blockFor? rule).bind (·.options.lookup key)).bind read).getD default = value := by
  have given (value : α) :
      config.Gives rule key (wrap value) ↔
        ((config.blockFor? rule).bind (·.options.lookup key)).bind read = some value := by
    rw [gives_iff]
    cases (config.blockFor? rule).bind (·.options.lookup key) with
    | none => simp
    | some found => rw [Option.bind_some, reads, Option.some.injEq]
  constructor
  · intro sets
    cases sets with
    | given gives => rw [(given value).mp gives, Option.getD_some]
    | missing none =>
        simp only [given] at none
        rw [Option.eq_none_iff_forall_ne_some.mpr none, Option.getD_none]
  · rintro rfl
    cases found : ((config.blockFor? rule).bind (·.options.lookup key)).bind read with
    | none => exact .missing fun value gives => by simp [(given value).mp gives] at found
    | some value => exact .given ((given value).mpr found)

theorem sets_integer_iff {default value : Int} :
    config.Sets rule key .integer default value ↔
      ((config.blockFor? rule).map (·.integer key default)).getD default = value := by
  rw [sets_iff Value.integer? (by rintro ⟨⟩ value <;> simp [Value.integer?])]
  cases config.blockFor? rule <;> rfl

theorem sets_string_iff {default value : String} :
    config.Sets rule key .string default value ↔
      ((config.blockFor? rule).map (·.string key default)).getD default = value := by
  rw [sets_iff Value.string? (by rintro ⟨⟩ value <;> simp [Value.string?])]
  cases config.blockFor? rule <;> rfl

theorem withOptions_projectStructure {organization : String}
    (sets : config.Sets Rules.ProjectStructure.descriptor "organization" .string "CIG"
      organization) :
    config.withOptions settings (Rules.ProjectStructure.rule "CIG" settings) =
      .ok (Rules.ProjectStructure.rule organization settings) := by
  rw [sets_string_iff] at sets
  have isRule : (Rules.ProjectStructure.rule "CIG" settings).descriptor =
    Rules.ProjectStructure.descriptor := rfl
  rw [withOptions, isRule]
  cases given : config.blockFor? Rules.ProjectStructure.descriptor with
  | none | some =>
      rw [given] at sets
      subst sets
      rfl

theorem withOptions_setLoadFields {threshold : Nat}
    (sets : config.Sets Rules.SetLoadFields.descriptor "field_threshold" .integer 10
      (threshold : Int)) :
    config.withOptions settings (Rules.SetLoadFields.rule 10) =
      .ok (Rules.SetLoadFields.rule threshold) := by
  rw [sets_integer_iff] at sets
  have isRule : (Rules.SetLoadFields.rule 10).descriptor = Rules.SetLoadFields.descriptor := rfl
  rw [withOptions, isRule]
  cases given : config.blockFor? Rules.SetLoadFields.descriptor with
  | none =>
      rw [given, Option.map_none, Option.getD_none] at sets
      obtain rfl : 10 = threshold := Int.ofNat.inj sets
      rfl
  | some block =>
      rw [given, Option.map_some, Option.getD_some] at sets
      have natural : ¬ (threshold : Int) < 0 := by omega
      have isDefault : (Rules.SetLoadFields.defaultThreshold : Int) = 10 := rfl
      simp only [isDefault, sets, natural, if_true, if_false, Int.toNat_natCast]

theorem withOptions_other {other : Rule}
    (noThreshold : other.descriptor.id ≠ Rules.SetLoadFields.descriptor.id)
    (noOrganization : other.descriptor.id ≠ Rules.ProjectStructure.descriptor.id) :
    config.withOptions settings other = .ok other := by
  rw [withOptions]
  cases config.blockFor? other.descriptor with
  | none => rfl
  | some block => simp only [noThreshold, noOrganization, if_false]

/-- All rules can be chosen with their options. -/
theorem selectRules_strict {rules : List Rule} (options : config.Options settings rules) :
    { config with preset := some "strict" }.selectRules settings = .ok rules := by
  obtain ⟨organization, threshold, setsOrganization, setsThreshold, rfl⟩ := options
  have parsed : Preset.parse "strict" = .ok .strict := by decide +kernel
  have strict : { config with preset := some "strict" }.presetOf = .ok .strict := by
    simp only [presetOf, parsed, Except.mapError]
  have every : Preset.rules settings .strict = Catalog.rulesWith "CIG" 10 settings := rfl
  have same : { config with preset := some "strict" }.withOptions settings =
    config.withOptions settings := rfl
  have classification : config.withOptions settings (Rules.DataClassification.rule settings) =
      .ok (Rules.DataClassification.rule settings) :=
    withOptions_other (show Rules.DataClassification.descriptor.id ≠ _ by decide)
      (show Rules.DataClassification.descriptor.id ≠ _ by decide)
  rw [selectRules, strict, same]
  simp (disch := decide) only [bind, Except.bind, every, Catalog.rulesWith, List.mapM_cons,
    List.mapM_nil, withOptions_projectStructure setsOrganization,
    withOptions_setLoadFields setsThreshold, classification, withOptions_other, pure, Except.pure]

theorem options_exist (valid : config.ValidOptions) (settings : SettingsSource) :
    ∃ rules, config.Options settings rules := by
  have setsThreshold : config.Sets Rules.SetLoadFields.descriptor "field_threshold" .integer 10 _ :=
    sets_integer_iff.mpr rfl
  have natural : 0 ≤ ((config.blockFor? Rules.SetLoadFields.descriptor).map
      (·.integer "field_threshold" 10)).getD 10 := by
    generalize ((config.blockFor? Rules.SetLoadFields.descriptor).map
      (·.integer "field_threshold" 10)).getD 10 = threshold at setsThreshold ⊢
    cases setsThreshold with
    | given gives => exact valid _ gives
    | missing => decide
  rw [← Int.toNat_of_nonneg natural] at setsThreshold
  exact ⟨_, _, _, sets_string_iff.mpr rfl, setsThreshold, rfl⟩

namespace Options

variable {rules : List Rule} (options : config.Options settings rules)

include options

theorem exists_builtin {chosen : Rule} (member : chosen ∈ rules) :
    ∃ builtin : Rules.Builtin, chosen = builtin.rule := by
  obtain ⟨organization, threshold, _, _, rfl⟩ := options
  simp only [Catalog.rulesWith, List.mem_cons, List.not_mem_nil, or_false] at member
  rcases member with rfl | rfl | rfl | rfl | rfl | rfl | rfl | rfl
  · exact ⟨.projectStructure organization settings, rfl⟩
  · exact ⟨.missingCaption, rfl⟩
  · exact ⟨.dataClassification settings, rfl⟩
  · exact ⟨.varParameter, rfl⟩
  · exact ⟨.setLoadFields threshold, rfl⟩
  · exact ⟨.calcFields, rfl⟩
  · exact ⟨.textBuilder, rfl⟩
  · exact ⟨.sourceExpression, rfl⟩

theorem descriptors : Catalog.descriptors = rules.map (·.descriptor) ++ [Descriptor.ruleFault] := by
  obtain ⟨organization, threshold, _, _, rfl⟩ := options
  rw [Catalog.descriptors_eq settings, Catalog.rules, Catalog.rulesWith]
  simp only [List.map_cons]
  rfl

theorem distinct : Analysis.Distinct rules := by
  have apart : (Catalog.descriptors.map (·.id)).Nodup := by decide
  rw [options.descriptors, List.map_append, List.map_map, List.nodup_append] at apart
  obtain ⟨codes, _, reserved⟩ := apart
  refine ⟨codes, fun rule member => ?_⟩
  exact reserved _ (List.mem_map_of_mem member) _ (List.mem_singleton_self _)

theorem steady {model : Model} (wellFormed : model.WellFormed) (root : String) :
    ∀ chosen ∈ rules, Analysis.Steady root model chosen := by
  intro chosen member
  obtain ⟨builtin, rfl⟩ := options.exists_builtin member
  exact Analysis.steady_builtin wellFormed builtin root

end Options

end Config

end ModelLint
