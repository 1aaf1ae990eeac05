import ModelLint.Config
import ModelLint.Proofs.Lookup
import ModelLint.Rule

namespace ModelLint

/-! Which entry of a configuration a rule goes by.

An entry is meant for a rule if its key is the code or the name of the rule, in any letter
case. Where no two entries are meant for one rule, the order of the entries does not
matter. -/

open Text

namespace Config

/-- A block of the configuration that is meant for a rule. -/
def Configures (config : Config) (rule : Descriptor) (block : RuleBlock) : Prop :=
  ∃ key, (key, block) ∈ config.rules ∧
    (sameIgnoringCase key rule.id = true ∨ sameIgnoringCase key rule.name = true)

/-- An entry of a configuration is meant for a rule, and this is its block. -/
def IsFor (rule : Descriptor) (entry : String × RuleBlock) (block : RuleBlock) : Prop :=
  (sameIgnoringCase entry.1 rule.id = true ∨ sameIgnoringCase entry.1 rule.name = true) ∧
    entry.2 = block

/-- The entries of a configuration that are meant for a rule. -/
def entriesFor (config : Config) (rule : Descriptor) : List (String × RuleBlock) :=
  config.rules.filter fun entry => rule.answersTo entry.1

/-- No rule is named by two entries. -/
def NamesOnce (config : Config) (rules : List Rule) : Prop :=
  ∀ rule ∈ rules, (config.entriesFor rule.descriptor).length ≤ 1

variable {config : Config} {rule : Descriptor} {block : RuleBlock}

theorem configures_iff :
    config.Configures rule block ↔ ∃ key, (key, block) ∈ config.entriesFor rule := by
  simp only [Configures, entriesFor, Descriptor.answersTo, List.mem_filter, Bool.or_eq_true]

theorem blockFor?_eq_head? :
    config.blockFor? rule = (config.entriesFor rule).head?.map (·.2) := by
  rw [blockFor?, entriesFor, List.head?_filter]

theorem firstOf_isFor_iff {first : Option RuleBlock} :
    FirstOf (IsFor rule) config.rules first ↔ config.blockFor? rule = first := by
  have finds (entry : String × RuleBlock) (block : RuleBlock) :
      (if rule.answersTo entry.1 then some entry.2 else none) = some block ↔
        IsFor rule entry block := by
    rw [Option.ite_none_right_eq_some, Descriptor.answersTo, Bool.or_eq_true, Option.some.injEq]
    rfl
  rw [firstOf_iff finds, blockFor?_eq_head?, entriesFor, ← List.head?_map,
    ← List.filterMap_eq_map, List.filterMap_filter, List.head?_filterMap]
  rfl

theorem blockFor?_eq_some_iff (once : (config.entriesFor rule).length ≤ 1) :
    config.blockFor? rule = some block ↔ config.Configures rule block := by
  rw [blockFor?_eq_head?, configures_iff]
  match entries : config.entriesFor rule with
  | [] => simp
  | [(key, only)] => simp [eq_comm]
  | _ :: _ :: _ => simp [entries] at once

theorem isEnabled_eq_false_iff (once : (config.entriesFor rule).length ≤ 1) :
    config.isEnabled rule = false ↔
      ∃ block, config.Configures rule block ∧ block.enabled = some false := by
  simp only [isEnabled, ← blockFor?_eq_some_iff once]
  cases config.blockFor? rule with
  | none => simp
  | some block => cases enabled : block.enabled <;> simp [enabled]

theorem severityOf?_eq_some_iff (once : (config.entriesFor rule).length ≤ 1)
    {severity : Severity} :
    config.severityOf? rule = some severity ↔
      ∃ block, config.Configures rule block ∧ block.severity = some severity := by
  simp only [severityOf?, ← blockFor?_eq_some_iff once, Option.bind_eq_some_iff]

/-- The entries may stand in any order. -/
theorem blockFor?_eq_of_perm {entries : List (String × RuleBlock)}
    (permuted : entries.Perm config.rules) (once : (config.entriesFor rule).length ≤ 1) :
    { config with rules := entries }.blockFor? rule = config.blockFor? rule := by
  have same : { config with rules := entries }.entriesFor rule = config.entriesFor rule :=
    eq_of_perm_of_short (permuted.filter _) once
  rw [blockFor?_eq_head?, blockFor?_eq_head?, same]

end Config

end ModelLint
