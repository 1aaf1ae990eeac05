import ModelLint.Proofs.Analysis.ByRule
import ModelLint.Proofs.Config

namespace ModelLint.Analysis

/-! The order of the rules does not show.

The rules take turns at everything they are shown, so their order decides how their findings
interleave. Sorting undoes that: only findings of one rule tie, and those come in the order in
which the rule has emitted them. -/

variable {plan : Plan} {workplace : Workplace} {model : Model}

theorem Distinct.of_perm {rules order : List Rule} (distinct : Distinct rules)
    (permuted : order.Perm rules) : Distinct order where
  codes := (permuted.map _).nodup_iff.mpr distinct.codes
  reserved rule member := distinct.reserved rule (permuted.mem_iff.mp member)

/-- At most one rule has a code. -/
theorem Distinct.length_filter_le {rules : List Rule} (distinct : Distinct rules) (code : String) :
    (rules.filter (·.descriptor.id = code)).length ≤ 1 :=
  length_filter_key (List.pairwise_map.mp distinct.codes) code

theorem sort_shownInTurn_of_perm {rules order : List Rule} (distinct : Distinct rules)
    (permuted : order.Perm rules) (config : Config) (root : String) (model : Model) (tree : Tree) :
    Violation.sort (shownInTurn order config root model tree) =
      Violation.sort (shownInTurn rules config root model tree) := by
  apply Violation.sort_eq_sort
  intro violation
  have sameRule := eq_of_perm_of_short (permuted.filter (·.descriptor.id = violation.code))
    (distinct.length_filter_le violation.code)
  rw [shownInTurn_filter_ties violation, sameRule, ← shownInTurn_filter_ties violation]

/-- What two analyses find is the same if their rules are the same in some order. -/
theorem check_eq_check_of_perm {left right : Analysis} (wellFormed : model.WellFormed)
    (distinct : Distinct left.rules) (steady : ∀ rule ∈ left.rules, Steady left.root model rule)
    (sameRoot : right.root = left.root) (permuted : right.rules.Perm left.rules)
    (sameSeverity : ∀ rule ∈ left.rules,
      right.config.severityOf rule.descriptor = left.config.severityOf rule.descriptor) :
    ∃ violations, left.check model false = ⟨some violations, false⟩ ∧
      right.check model false = ⟨some violations, false⟩ := by
  obtain ⟨tree, isTree⟩ := wellFormed.isTree
  have rightSteady : ∀ rule ∈ right.rules, Steady right.root model rule := by
    intro rule member
    rw [sameRoot]
    exact steady rule (permuted.mem_iff.mp member)
  refine ⟨_, check_eq_shownInTurn wellFormed isTree distinct steady, ?_⟩
  rw [check_eq_shownInTurn wellFormed isTree (distinct.of_perm permuted) rightSteady, sameRoot,
    sort_shownInTurn_of_perm distinct permuted, shownInTurn_congr sameSeverity]

/-- Two analyses of one plan whose rules, and whose entries for the rules, are listed in
different orders find the same violations in an accepted model, in the same order. -/
theorem check_eq_of_perm (accepted : model.check = .ok ()) {analysis : Analysis}
    (built : ofPlan plan workplace = .ok analysis) (distinct : Distinct plan.rules)
    (steady : ∀ rule ∈ plan.rules, Steady analysis.root model rule)
    (once : plan.config.NamesOnce plan.rules) {order : List Rule}
    (permuted : order.Perm plan.rules) {entries : List (String × RuleBlock)}
    (sameEntries : entries.Perm plan.config.rules) :
    ∃ other violations,
      ofPlan { plan with rules := order, config := { plan.config with rules := entries } }
        workplace = .ok other ∧
      analysis.check model false = ⟨some violations, false⟩ ∧
      other.check model false = ⟨some violations, false⟩ := by
  obtain ⟨parsed, root, rules, config⟩ := ofPlan_eq_ok built
  obtain ⟨other, otherBuilt⟩ := ofPlan_exists
    { plan with rules := order, config := { plan.config with rules := entries } } workplace parsed
  obtain ⟨_, otherRoot, otherRules, otherConfig⟩ := ofPlan_eq_ok otherBuilt
  have sameBlock (rule : Rule) (member : rule ∈ plan.rules) :
      other.config.blockFor? rule.descriptor = analysis.config.blockFor? rule.descriptor := by
    rw [otherConfig, config]
    exact Config.blockFor?_eq_of_perm sameEntries (once rule member)
  have sameEnabled : other.rules = order.filter fun rule =>
      plan.config.isEnabled rule.descriptor := by
    rw [otherRules, ← otherConfig, ← config]
    apply List.filter_congr
    intro rule member
    simp only [Config.isEnabled, sameBlock rule (permuted.mem_iff.mp member)]
  obtain ⟨violations, found, otherFound⟩ := check_eq_check_of_perm
    (Model.wellFormed_of_check accepted)
    (by rw [rules]; exact distinct.filter _)
    (fun rule member => steady rule (List.mem_of_mem_filter (rules ▸ member)))
    (otherRoot.trans root.symm)
    (by rw [rules, sameEnabled]; exact permuted.filter _)
    (fun rule member => by
      simp only [Config.severityOf, Config.severityOf?,
        sameBlock rule (List.mem_of_mem_filter (rules ▸ member))])
  exact ⟨other, violations, otherBuilt, found, otherFound⟩

/-- A rule that objects to every exit statement. -/
def exitRule (code : String) : Rule where
  descriptor := { Descriptor.ruleFault with id := code, name := code }
  interests := [.node .exitStatement]
  onNode context id :=
    { findings := [{ place := Dispatch.placeOf context.model (some id), args := [],
                     anchor := some id }] }

/-- Two exit statements with one line and column and different offsets. -/
def twins : Model where
  filePath := "Twins.al"
  nodes := #[
    { kind := .compilationUnit, children := [1, 2] },
    { kind := .exitStatement, span := ⟨3, 1, 15, 5⟩, parent := some 0 },
    { kind := .exitStatement, span := ⟨3, 1, 10, 2⟩, parent := some 0 }]

def exitPlan : Plan where
  root := some "/"
  rules := [exitRule "TEST002", exitRule "TEST001"]
  config := { rules := [("test001", { severity := some .error }),
    ("TEST003", { enabled := some false })] }

theorem check_eq_of_perm_exitPlan :
    (Dispatch.run exitPlan.rules "/" twins false).diagnostics.map (·.ruleId) =
      ["TEST002", "TEST001", "TEST002", "TEST001"] ∧
    (Dispatch.run exitPlan.rules.reverse "/" twins false).diagnostics.map (·.ruleId) =
      ["TEST001", "TEST002", "TEST001", "TEST002"] ∧
    ∃ analysis other violations, ofPlan exitPlan default = .ok analysis ∧
      ofPlan { exitPlan with
        rules := exitPlan.rules.reverse
        config := { exitPlan.config with rules := exitPlan.config.rules.reverse } } default =
          .ok other ∧
      analysis.check twins false = ⟨some violations, false⟩ ∧
      other.check twins false = ⟨some violations, false⟩ := by
  refine ⟨by decide +kernel, by decide +kernel, ?_⟩
  obtain ⟨analysis, built⟩ := ofPlan_exists exitPlan default (by decide +kernel)
  have accepted : twins.check = .ok () := by decide +kernel
  have distinct : Distinct exitPlan.rules := ⟨by decide +kernel, by decide +kernel⟩
  have steady : ∀ rule ∈ exitPlan.rules, Steady analysis.root twins rule := by
    intro rule member
    simp only [exitPlan, List.mem_cons, List.not_mem_nil, or_false] at member
    rcases member with rfl | rfl <;>
      exact ⟨fun sight => by cases sight <;> rfl, fun sight _ _ _ => by cases sight <;> rfl⟩
  have once : exitPlan.config.NamesOnce exitPlan.rules := by
    unfold Config.NamesOnce
    decide +kernel
  obtain ⟨other, violations, otherBuilt, found, otherFound⟩ := check_eq_of_perm accepted built
    distinct steady once exitPlan.rules.reverse_perm exitPlan.config.rules.reverse_perm
  exact ⟨analysis, other, violations, built, otherBuilt, found, otherFound⟩

end ModelLint.Analysis
