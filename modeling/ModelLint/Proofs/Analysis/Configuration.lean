import ModelLint.Proofs.Analysis.ByRule
import ModelLint.Proofs.Config

namespace ModelLint

/-! What a configuration changes about the violations of an analysis.

Rules are disabled before a run and severities are set after it. Seen from the outcome both
are the same kind of change: some violations of the default configuration are left out, and
others get another severity. The configuration has one more say, by the root that it gives to
an analysis without one: source files are looked at from there. -/

open Fallible

namespace Config

/-- The configuration disables the rule of a violation. -/
def Disables (config : Config) (rules : List Rule) (violation : Violation) : Prop :=
  ∃ rule ∈ rules, rule.descriptor.id = violation.code ∧
    ∃ block, config.Configures rule.descriptor block ∧ block.enabled = some false

/-- The configuration gives the violations of a rule another severity. -/
def Regrades (config : Config) (rules : List Rule) (violation : Violation)
    (severity : Severity) : Prop :=
  ∃ rule ∈ rules, rule.descriptor.id = violation.code ∧
    ∃ block, config.Configures rule.descriptor block ∧ block.severity = some severity

/-- What becomes of a violation, if anything does. -/
def Revises (config : Config) (rules : List Rule) (before after : Violation) : Prop :=
  ¬ config.Disables rules before ∧
    ((∃ severity, config.Regrades rules before severity ∧
        after = { before with severity := severity }) ∨
      (∀ severity, ¬ config.Regrades rules before severity) ∧ after = before)

def revise? (config : Config) (rules : List Rule) (violation : Violation) : Option Violation :=
  match rules.find? (·.descriptor.id = violation.code) with
  | none => some violation
  | some rule =>
      if config.isEnabled rule.descriptor then
        some { violation with
          severity := (config.severityOf? rule.descriptor).getD violation.severity }
      else none

variable {config : Config} {rules : List Rule} {rule : Rule} {before after : Violation}

theorem revise?_of_mem (distinct : Analysis.Distinct rules) (member : rule ∈ rules)
    (same : before.code = rule.descriptor.id) :
    config.revise? rules before =
      if config.isEnabled rule.descriptor then
        some { before with
          severity := (config.severityOf? rule.descriptor).getD before.severity }
      else none := by
  rw [revise?, same, distinct.find?_eq_some member]

theorem revise?_eq_some_iff (distinct : Analysis.Distinct rules) (once : config.NamesOnce rules) :
    config.revise? rules before = some after ↔ config.Revises rules before after := by
  cases found : rules.find? (·.descriptor.id = before.code) with
  | none =>
      have absent : ∀ rule ∈ rules, rule.descriptor.id ≠ before.code := by
        simpa using List.find?_eq_none.mp found
      have untouched : ¬ config.Disables rules before := fun disables => by
        obtain ⟨rule, member, same, _⟩ := disables
        exact absent rule member same
      have ungraded (severity : Severity) : ¬ config.Regrades rules before severity :=
        fun regrades => by
          obtain ⟨rule, member, same, _⟩ := regrades
          exact absent rule member same
      simp only [revise?, found, Revises, untouched, ungraded, Option.some.injEq,
        not_false_eq_true, implies_true, true_and, false_and, exists_false, false_or]
      exact eq_comm
  | some rule =>
      have member := List.mem_of_find?_eq_some found
      have same : rule.descriptor.id = before.code := by simpa using List.find?_some found
      have only (holds : Rule → Prop) :
          (∃ other ∈ rules, other.descriptor.id = before.code ∧ holds other) ↔ holds rule := by
        constructor
        · intro given
          obtain ⟨other, otherMember, otherSame, otherHolds⟩ := given
          have again := distinct.find?_eq_some otherMember
          rw [otherSame, found] at again
          cases again
          exact otherHolds
        · exact fun holdsHere => ⟨rule, member, same, holdsHere⟩
      have disables : config.Disables rules before ↔ config.isEnabled rule.descriptor = false :=
        (only _).trans (isEnabled_eq_false_iff (once rule member)).symm
      have regrades (severity : Severity) : config.Regrades rules before severity ↔
          config.severityOf? rule.descriptor = some severity :=
        (only _).trans (severityOf?_eq_some_iff (once rule member)).symm
      simp only [revise?, found, Revises, disables, regrades]
      cases config.isEnabled rule.descriptor with
      | false => simp
      | true =>
          cases config.severityOf? rule.descriptor with
          | none =>
              have either : before = after ↔ after = before := eq_comm
              simpa using either
          | some severity => simp [eq_comm]

theorem revise?_ties (before after : Violation)
    (revised : config.revise? rules before = some after) :
    after.Ties before := by
  unfold revise? at revised
  split at revised
  · cases revised
    exact .refl before
  · split at revised
    · cases revised
      exact ⟨rfl, rfl, rfl, rfl, rfl⟩
    · contradiction

end Config

namespace Analysis

variable {plan : Plan} {workplace : Workplace} {model : Model} {tree : Tree} {config : Config}
  {root : String} {rules : List Rule} {rule : Rule} {sight : Dispatch.Sight}

theorem severityOf?_default (rule : Descriptor) : ({} : Config).severityOf? rule = none :=
  rfl

/-- What the configuration makes of one diagnostic. -/
theorem shown?_bind_revise? (distinct : Distinct rules) (member : rule ∈ rules)
    (diagnostic : Diagnostic) :
    (shown? {} model rule.descriptor diagnostic).bind (config.revise? rules) =
      if config.isEnabled rule.descriptor then shown? config model rule.descriptor diagnostic
      else none := by
  unfold shown?
  split
  · simp
  · rw [Option.bind_some, Config.revise?_of_mem distinct member rfl]
    split <;> simp [severityOf?_default, Config.severityOf]

theorem filterMap_revise?_shownBy (distinct : Distinct rules) (member : rule ∈ rules) :
    (shownBy {} root model sight rule).filterMap (config.revise? rules) =
      if config.isEnabled rule.descriptor then shownBy config root model sight rule else [] := by
  simp only [shownBy, List.filterMap_filterMap, shown?_bind_revise? distinct member]
  split
  · rfl
  · simp

/-- Leaving out disabled rules and setting severities revises what is shown by default. -/
theorem shownInTurn_filter_enabled (distinct : Distinct rules) :
    shownInTurn (rules.filter fun rule => config.isEnabled rule.descriptor) config root model tree =
      (shownInTurn rules {} root model tree).filterMap (config.revise? rules) := by
  simp only [shownInTurn, List.filterMap_flatMap, asked_filter]
  apply List.flatMap_congr
  intro sight _
  have revised (rule : Rule) (isAsked : rule ∈ Dispatch.asked rules model sight) :
      (shownBy {} root model sight rule).filterMap (config.revise? rules) =
        if config.isEnabled rule.descriptor then shownBy config root model sight rule else [] :=
    filterMap_revise?_shownBy distinct (mem_asked.mp isAsked).1
  have disabled : ∀ rule ∈ Dispatch.asked rules model sight,
      config.isEnabled rule.descriptor = false →
      (shownBy {} root model sight rule).filterMap (config.revise? rules) = [] := by
    intro rule isAsked off
    simp [revised rule isAsked, off]
  rw [← flatMap_filter_eq disabled]
  apply List.flatMap_congr
  intro rule selected
  obtain ⟨isAsked, enabled⟩ := List.mem_filter.mp selected
  rw [revised rule isAsked, if_pos enabled]

theorem ofPlan_default_exists {configured : Analysis}
    (built : ofPlan plan workplace = .ok configured) :
    ∃ plain, ofPlan { plan with config := {} } workplace = .ok plain := by
  apply ofPlan_exists
  have usual : (Scope.unspecified.exclude.mapM Exclusion.Pattern.parse?).isSome = true := by
    decide +kernel
  have parsed := (ofPlan_eq_ok built).1
  simp only [List.mapM_append, Option.isSome_iff_exists, bind, Option.bind_eq_some_iff] at parsed ⊢
  obtain ⟨_, own, given, _⟩ := parsed
  obtain ⟨exclude, isSome⟩ := Option.isSome_iff_exists.mp usual
  exact ⟨_, own, given, exclude, isSome, rfl⟩

/-- An analysis with a configuration finds in an accepted model what the analysis with the
default configuration finds, without the violations of rules that the configuration disables and
with its severities, provided that both look at source files from one root. They do if the plan
gives the root. -/
theorem check_eq_revised (accepted : model.check = .ok ()) {configured : Analysis}
    (built : ofPlan plan workplace = .ok configured) (distinct : Distinct plan.rules)
    (steady : ∀ rule ∈ plan.rules, Steady configured.root model rule)
    (once : plan.config.NamesOnce plan.rules) :
    ∃ plain, ofPlan { plan with config := {} } workplace = .ok plain ∧
      (plan.root ≠ none → configured.root = plain.root) ∧
      (configured.root = plain.root → ∃ before after,
        plain.check model false = ⟨some before, false⟩ ∧
        configured.check model false = ⟨some after, false⟩ ∧
        Reports (plan.config.Revises plan.rules) before after) := by
  have wellFormed := Model.wellFormed_of_check accepted
  obtain ⟨tree, isTree⟩ := wellFormed.isTree
  obtain ⟨_, root, rules, config⟩ := ofPlan_eq_ok built
  obtain ⟨plain, plainBuilt⟩ := ofPlan_default_exists built
  obtain ⟨_, plainRoot, plainRules, plainConfig⟩ := ofPlan_eq_ok plainBuilt
  have everyRule : plain.rules = plan.rules := by
    rw [plainRules]
    exact List.filter_eq_self.mpr fun _ _ => rfl
  refine ⟨plain, plainBuilt, fun given => ?_, fun sameRoot => ?_⟩
  · rw [root, plainRoot]
    cases isRoot : plan.root with
    | none => exact absurd isRoot given
    | some path => rfl
  · have distinctPlain : Distinct plain.rules := by rwa [everyRule]
    have steadyPlain : ∀ rule ∈ plain.rules, Steady plain.root model rule := by
      rwa [everyRule, ← sameRoot]
    have distinctEnabled : Distinct configured.rules := by
      rw [rules]
      exact distinct.filter _
    have steadyEnabled : ∀ rule ∈ configured.rules, Steady configured.root model rule :=
      fun rule member => steady rule (List.mem_of_mem_filter (rules ▸ member))
    have byDefault := check_eq_shownInTurn wellFormed isTree distinctPlain steadyPlain
    have byConfig := check_eq_shownInTurn wellFormed isTree distinctEnabled steadyEnabled
    rw [everyRule, plainConfig, ← sameRoot] at byDefault
    rw [rules, config, shownInTurn_filter_enabled distinct,
      Violation.sort_filterMap Config.revise?_ties] at byConfig
    refine ⟨_, _, byDefault, byConfig, ?_⟩
    exact reports_filterMap fun before _ after => Config.revise?_eq_some_iff distinct once

/-- A table with a field that has no caption and spells out its classification. -/
def customer : Model where
  filePath := "Customer.al"
  nodes := #[{ kind := .compilationUnit }]
  symbols := #[
    { name := "Customer", kind := .object .table },
    { name := "Name", kind := .field, container := some 0,
      properties := [("DataClassification", "CustomerContent")] }]

def desk : Workplace where
  workingDirectory := "/desk"

/-- One rule is disabled and the other is graver, both by keys in another letter case. -/
def graver : Plan where
  root := some "/desk"
  rules := [Rules.MissingCaption.rule, Rules.DataClassification.rule (.fixed none)]
  config := { rules := [("cig0002", { enabled := some false }),
    ("Redundant-Data-Classification", { severity := some .error })] }

theorem check_eq_revised_graver :
    ∃ plain configured before after,
      ofPlan { graver with config := {} } desk = .ok plain ∧
      ofPlan graver desk = .ok configured ∧
      plain.check customer false = ⟨some before, false⟩ ∧
      configured.check customer false = ⟨some after, false⟩ ∧
      Reports (graver.config.Revises graver.rules) before after ∧
      after.map (fun violation => (violation.code, violation.severity)) =
        [("CIG0003", .error)] := by
  obtain ⟨configured, built⟩ := ofPlan_exists graver desk (by decide +kernel)
  have accepted : customer.check = .ok () := by decide +kernel
  have distinct : Distinct graver.rules := ⟨by decide +kernel, by decide +kernel⟩
  have steady : ∀ rule ∈ graver.rules, Steady configured.root customer rule := by
    intro rule member
    have wellFormed := Model.wellFormed_of_check accepted
    simp only [graver, List.mem_cons, List.not_mem_nil, or_false] at member
    rcases member with rfl | rfl
    · exact steady_builtin wellFormed .missingCaption _
    · exact steady_builtin wellFormed (.dataClassification (.fixed none)) _
  have once : graver.config.NamesOnce graver.rules := by
    unfold Config.NamesOnce
    decide +kernel
  obtain ⟨plain, plainBuilt, ofRoot, revised⟩ :=
    check_eq_revised accepted built distinct steady once
  obtain ⟨before, after, byDefault, byConfig, reports⟩ := revised (ofRoot (by decide))
  have computed : (ofPlan graver desk).toOption.bind (fun analysis =>
      (analysis.check customer false).violations.map fun violations =>
        violations.map fun violation => (violation.code, violation.severity)) =
      some [("CIG0003", .error)] := by
    decide +kernel
  refine ⟨plain, configured, before, after, plainBuilt, built, byDefault, byConfig, reports, ?_⟩
  simpa [built, byConfig, Except.toOption] using computed

/-- The project below a folder is one for the marketplace. -/
def marketplace : FileTree where
  files := [
    (["desk", "sub", ".AL-Go", "settings.json"], "\x7b\"type\": \"AppSource App\"\x7d".toUTF8)]

/-- The configuration gives the root of an analysis and says nothing about rules. -/
def moved : Plan where
  rules := [Rules.DataClassification.rule (.inTree marketplace)]
  config := { scope := { root := "sub" } }

/-- A configuration that names no rule can still make a violation vanish: with the root that it
gives, the rule finds other settings. -/
theorem check_not_revised_moved :
    customer.check = .ok () ∧ Distinct moved.rules ∧ moved.config.NamesOnce moved.rules ∧
    ∃ plain configured before after,
      ofPlan { moved with config := {} } desk = .ok plain ∧ ofPlan moved desk = .ok configured ∧
      (∀ rule ∈ moved.rules,
        Steady plain.root customer rule ∧ Steady configured.root customer rule) ∧
      plain.check customer false = ⟨some before, false⟩ ∧
      configured.check customer false = ⟨some after, false⟩ ∧
      ¬ Reports (moved.config.Revises moved.rules) before after := by
  have accepted : customer.check = .ok () := by decide +kernel
  have wellFormed := Model.wellFormed_of_check accepted
  have distinct : Distinct moved.rules := ⟨by decide +kernel, by decide +kernel⟩
  have steady (root : String) : ∀ rule ∈ moved.rules, Steady root customer rule := by
    intro rule member
    obtain rfl := List.mem_singleton.mp member
    exact steady_builtin wellFormed (.dataClassification (.inTree marketplace)) root
  have once : moved.config.NamesOnce moved.rules := fun _ _ => Nat.zero_le 1
  obtain ⟨configured, built⟩ := ofPlan_exists moved desk (by decide +kernel)
  obtain ⟨plain, plainBuilt⟩ := ofPlan_default_exists built
  obtain ⟨before, byDefault⟩ := check_exists_of_plan wellFormed plainBuilt distinct (steady _)
  obtain ⟨after, byConfig⟩ := check_exists_of_plan wellFormed built distinct (steady _)
  have shown : (ofPlan { moved with config := {} } desk).toOption.bind (fun analysis =>
      (analysis.check customer false).violations.map List.length) = some 1 := by
    decide +kernel
  have hidden : (ofPlan moved desk).toOption.bind (fun analysis =>
      (analysis.check customer false).violations.map List.length) = some 0 := by
    decide +kernel
  have one : before.length = 1 := by
    simpa [plainBuilt, byDefault, Except.toOption] using shown
  have none : after.length = 0 := by simpa [built, byConfig, Except.toOption] using hidden
  obtain ⟨violation, rfl⟩ := List.length_eq_one_iff.mp one
  obtain rfl := List.eq_nil_of_length_eq_zero none
  refine ⟨accepted, distinct, once, plain, configured, [violation], [], plainBuilt, built,
    fun rule member => ⟨steady _ rule member, steady _ rule member⟩, byDefault, byConfig, ?_⟩
  intro reports
  have unnamed (rule : Descriptor) (block : RuleBlock) : ¬ moved.config.Configures rule block := by
    simp [Config.Configures, moved]
  cases reports with
  | silent nothing _ =>
      apply nothing violation
      refine ⟨fun disables => ?_, .inr ⟨fun severity regrades => ?_, rfl⟩⟩
      · obtain ⟨rule, _, _, block, configures, _⟩ := disables
        exact unnamed rule.descriptor block configures
      · obtain ⟨rule, _, _, block, configures, _⟩ := regrades
        exact unnamed rule.descriptor block configures

end Analysis

end ModelLint
