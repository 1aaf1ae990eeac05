import ModelLint.Proofs.Analysis
import ModelLint.Proofs.Rules.Faultless

namespace ModelLint.Analysis

/-! The violations of an analysis, rule by rule.

Where the codes of the rules differ and no rule fails, a violation tells which rule it comes
from. What one rule contributes depends on no other rule, and the other rules only decide what
stands in between. -/

open Dispatch (Sight Patient emission emissions asked)

/-- The codes tell the rules apart, from each other and from what stands for failed rules. -/
structure Distinct (rules : List Rule) : Prop where
  codes : (rules.map (·.descriptor.id)).Nodup
  reserved : ∀ rule ∈ rules, rule.descriptor.id ≠ "CIG9999"

/-- A rule that fails on nothing it asks for, and never asks for the run to be cancelled. -/
structure Steady (root : String) (model : Model) (rule : Rule) : Prop where
  patient : Patient root model rule
  faultless : ∀ (sight : Sight) (interest : Interest), sight.interest? model = some interest →
    interest ∈ rule.interests →
    (sight.outcome rule ⟨model, Path.join root model.filePath, false⟩).fault = none

/-- What is shown of a diagnostic of a rule. -/
def shown? (config : Config) (model : Model) (rule : Descriptor) (diagnostic : Diagnostic) :
    Option Violation :=
  if isAllowed model rule diagnostic then none
  else some {
    code := rule.id
    rule := rule.name
    severity := config.severityOf rule
    location := locationOf model diagnostic.place
    message := rule.format diagnostic.args
    category := rule.category
    help := some rule.title }

/-- What is shown of one rule and one thing that it sees. -/
def shownBy (config : Config) (root : String) (model : Model) (sight : Sight) (rule : Rule) :
    List Violation :=
  (emission root model sight rule).filterMap (shown? config model rule.descriptor)

/-- What is shown of some rules, in the order of emission. -/
def shownInTurn (rules : List Rule) (config : Config) (root : String) (model : Model)
    (tree : Tree) : List Violation :=
  (Sight.all model tree).flatMap fun sight =>
    (asked rules model sight).flatMap (shownBy config root model sight)

variable {analysis : Analysis} {model : Model} {tree : Tree} {config : Config} {root : String}
  {rules : List Rule} {rule : Rule} {sight : Sight}

theorem mem_asked :
    rule ∈ asked rules model sight ↔
      rule ∈ rules ∧ ∃ interest, sight.interest? model = some interest ∧
        interest ∈ rule.interests := by
  simp [asked, List.mem_filter, Option.any_eq_true]

theorem asked_filter (keeps : Rule → Bool) :
    asked (rules.filter keeps) model sight = (asked rules model sight).filter keeps := by
  simp only [asked, List.filter_filter, Bool.and_comm]

/-- The rules there are neither fail nor cancel a run over an accepted model. -/
theorem steady_builtin (wellFormed : model.WellFormed) (builtin : Rules.Builtin) (root : String) :
    Steady root model builtin.rule where
  patient := builtin.patient root
  faultless _ _ seen wanted := builtin.fault_eq_none wellFormed seen wanted

theorem ofPlan_eq_ok {plan : Plan} {workplace : Workplace}
    (built : ofPlan plan workplace = .ok analysis) :
    ((plan.exclude ++ plan.config.scope.exclude).mapM Exclusion.Pattern.parse?).isSome = true ∧
      analysis.root = workplace.absolute (plan.root.getD plan.config.scope.root) ∧
      analysis.rules = plan.rules.filter (fun rule => plan.config.isEnabled rule.descriptor) ∧
      analysis.config = plan.config := by
  unfold ofPlan at built
  split at built
  · contradiction
  · rename_i exclude parsed
    cases built
    exact ⟨by simp [parsed], rfl, rfl, rfl⟩

theorem ofPlan_exists (plan : Plan) (workplace : Workplace)
    (parsed : ((plan.exclude ++ plan.config.scope.exclude).mapM
      Exclusion.Pattern.parse?).isSome = true) :
    ∃ analysis, ofPlan plan workplace = .ok analysis := by
  obtain ⟨exclude, isSome⟩ := Option.isSome_iff_exists.mp parsed
  simp only [ofPlan, isSome]
  exact ⟨_, rfl⟩

theorem Distinct.filter (distinct : Distinct rules) (keeps : Rule → Bool) :
    Distinct (rules.filter keeps) where
  codes := (List.filter_sublist.map _).nodup distinct.codes
  reserved rule member := distinct.reserved rule (List.mem_of_mem_filter member)

theorem ruleId_of_mem_emission (steady : Steady root model rule)
    (isAsked : rule ∈ asked rules model sight) {diagnostic : Diagnostic}
    (emitted : diagnostic ∈ emission root model sight rule) :
    diagnostic.ruleId = rule.descriptor.id := by
  obtain ⟨_, interest, seen, wanted⟩ := mem_asked.mp isAsked
  rw [emission, steady.faultless sight interest seen wanted, List.append_nil] at emitted
  obtain ⟨finding, _, rfl⟩ := List.mem_map.mp emitted
  rfl

theorem code_of_shown? {descriptor : Descriptor} {diagnostic : Diagnostic} {violation : Violation}
    (isShown : shown? config model descriptor diagnostic = some violation) :
    violation.code = descriptor.id := by
  unfold shown? at isShown
  split at isShown
  · contradiction
  · cases isShown
    rfl

theorem code_of_mem_shownBy {violation : Violation}
    (member : violation ∈ shownBy config root model sight rule) :
    violation.code = rule.descriptor.id := by
  obtain ⟨diagnostic, _, isShown⟩ := List.mem_filterMap.mp member
  exact code_of_shown? isShown

theorem Distinct.find?_eq_some (distinct : Distinct rules) (member : rule ∈ rules) :
    rules.find? (·.descriptor.id = rule.descriptor.id) = some rule := by
  obtain ⟨before, after, rfl⟩ := List.append_of_mem member
  have codes := distinct.codes
  rw [List.map_append, List.map_cons] at codes
  refine List.find?_eq_some_iff_append.mpr ⟨by simp, before, after, rfl, ?_⟩
  intro earlier inBefore
  simp only [Bool.not_eq_true', decide_eq_false_iff_not]
  intro same
  exact List.disjoint_of_nodup_append codes (List.mem_map_of_mem inBefore) (by simp [same])

theorem Distinct.descriptor?_eq_some (distinct : Distinct analysis.rules)
    (member : rule ∈ analysis.rules) :
    analysis.descriptor? rule.descriptor.id = some rule.descriptor := by
  have other : Descriptor.ruleFault.id ≠ rule.descriptor.id :=
    (distinct.reserved rule member).symm
  have found := distinct.find?_eq_some member
  rw [descriptor?, List.find?_cons_of_neg (by simpa using other), List.find?_map]
  simpa only [Function.comp_def, Option.map_some] using congrArg (Option.map Rule.descriptor) found

theorem violation?_eq_shown? (distinct : Distinct analysis.rules) (member : rule ∈ analysis.rules)
    {diagnostic : Diagnostic} (same : diagnostic.ruleId = rule.descriptor.id) :
    analysis.violation? model diagnostic =
      shown? analysis.config model rule.descriptor diagnostic := by
  simp only [violation?, same, distinct.descriptor?_eq_some member, bind, Option.bind_some, shown?,
    pure]
  split <;> rfl

theorem filterMap_emission (distinct : Distinct analysis.rules)
    (steady : ∀ rule ∈ analysis.rules, Steady analysis.root model rule)
    (isAsked : rule ∈ asked analysis.rules model sight) :
    (emission analysis.root model sight rule).filterMap (analysis.violation? model) =
      shownBy analysis.config analysis.root model sight rule := by
  have member := (mem_asked.mp isAsked).1
  apply List.filterMap_congr
  intro diagnostic emitted
  exact violation?_eq_shown? distinct member
    (ruleId_of_mem_emission (steady rule member) isAsked emitted)

/-- Checking an accepted model sorts what is shown of its rules. -/
theorem check_eq_shownInTurn (wellFormed : model.WellFormed) (isTree : model.IsTree tree)
    (distinct : Distinct analysis.rules)
    (steady : ∀ rule ∈ analysis.rules, Steady analysis.root model rule) :
    analysis.check model false =
      ⟨some (Violation.sort
        (shownInTurn analysis.rules analysis.config analysis.root model tree)), false⟩ := by
  have ended := Dispatch.run_eq_emissions wellFormed isTree
    fun rule member => (steady rule member).patient
  have shown : ((Sight.all model tree).flatMap
      (emissions analysis.rules analysis.root model)).filterMap (analysis.violation? model) =
      shownInTurn analysis.rules analysis.config analysis.root model tree := by
    simp only [shownInTurn, emissions, List.filterMap_flatMap]
    apply List.flatMap_congr
    intro sight _
    apply List.flatMap_congr
    intro rule isAsked
    exact filterMap_emission distinct steady isAsked
  simp only [check, Analysis.run, ended, if_true, violationsOf, shown]

theorem check_exists_of_plan {plan : Plan} {workplace : Workplace}
    (wellFormed : model.WellFormed) (built : ofPlan plan workplace = .ok analysis)
    (distinct : Distinct plan.rules)
    (steady : ∀ rule ∈ plan.rules, Steady analysis.root model rule) :
    ∃ violations, analysis.check model false = ⟨some violations, false⟩ := by
  obtain ⟨tree, isTree⟩ := wellFormed.isTree
  obtain ⟨_, _, chosen, _⟩ := ofPlan_eq_ok built
  exact ⟨_, check_eq_shownInTurn wellFormed isTree (by rw [chosen]; exact distinct.filter _)
    fun rule member => steady rule (List.mem_of_mem_filter (chosen ▸ member))⟩

theorem flatMap_filter_eq {α β : Type} {values : List α} {keeps : α → Bool} {spread : α → List β}
    (empty : ∀ value ∈ values, keeps value = false → spread value = []) :
    (values.filter keeps).flatMap spread = values.flatMap spread := by
  induction values with
  | nil => rfl
  | cons value rest ih =>
      have later := ih fun other member => empty other (List.mem_cons_of_mem _ member)
      cases kept : keeps value with
      | true => rw [List.filter_cons_of_pos kept, List.flatMap_cons, List.flatMap_cons, later]
      | false =>
          rw [List.filter_cons_of_neg (by simp [kept]), List.flatMap_cons,
            empty value (by simp) kept, List.nil_append, later]

/-- Only violations of one rule tie. -/
theorem shownInTurn_filter_ties (violation : Violation) :
    (shownInTurn rules config root model tree).filter (·.Ties violation) =
      (shownInTurn (rules.filter (·.descriptor.id = violation.code)) config root model
        tree).filter (·.Ties violation) := by
  simp only [shownInTurn, List.filter_flatMap, asked_filter]
  apply List.flatMap_congr
  intro sight _
  symm
  apply flatMap_filter_eq
  intro rule _ other
  apply List.filter_eq_nil_iff.mpr
  intro shown member
  have code := code_of_mem_shownBy member
  simp only [decide_eq_true_eq, decide_eq_false_iff_not] at other ⊢
  intro ties
  exact other (code.symm.trans ties.2.2.2.1)

theorem shownInTurn_congr {config' : Config}
    (same : ∀ rule ∈ rules,
      config.severityOf rule.descriptor = config'.severityOf rule.descriptor) :
    shownInTurn rules config root model tree = shownInTurn rules config' root model tree := by
  apply List.flatMap_congr
  intro sight _
  apply List.flatMap_congr
  intro rule isAsked
  apply List.filterMap_congr
  intro diagnostic _
  simp only [shown?, same rule (mem_asked.mp isAsked).1]

end ModelLint.Analysis
