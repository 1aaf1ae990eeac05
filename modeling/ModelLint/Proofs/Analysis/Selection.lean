import ModelLint.Proofs.Analysis.ByRule

namespace ModelLint

/-! Fewer rules, fewer violations.

An analysis with some of the rules of another one finds what that one finds of these rules, in
the same order: in one model, since no rule depends on another, and in all the files of a tree,
since dropping violations commutes with sorting them. -/

theorem Violation.filter_sort (keeps : Violation → Bool) (violations : List Violation) :
    (sort violations).filter keeps = sort (violations.filter keeps) :=
  filter_mergeSort isLE_trans isLE_total keeps violations

namespace Report

variable {report other : Report} {keeps : Violation → Bool}

/-- What is left of a report if only some violations count. -/
def restrict (keeps : Violation → Bool) (report : Report) : Report :=
  { report with violations := report.violations.filter keeps }

theorem restrict_append :
    (report.append other).restrict keeps =
      (report.restrict keeps).append (other.restrict keeps) := by
  simp only [restrict, append, List.filter_append]

theorem restrict_sort : report.sort.restrict keeps = (report.restrict keeps).sort := by
  simp only [restrict, sort, Violation.filter_sort]

end Report

namespace Analysis

open Dispatch (Sight asked)

variable {few every : Analysis} {chosen : Descriptor → Bool} {keeps : Violation → Bool}
  {model : Model}

/-- An analysis that differs from another in that it has only the chosen ones of its rules. -/
structure Narrows (chosen : Descriptor → Bool) (few every : Analysis) : Prop where
  rules : few.rules = every.rules.filter (chosen ·.descriptor)
  root : few.root = every.root
  severities : few.config.severityOf = every.config.severityOf
  search : few.search = every.search
  failOnLoadError : few.failOnLoadError = every.failOnLoadError

/-- The plan of an analysis with fewer rules. The preset has no part in what is analysed. -/
def Plan.narrow (plan : Plan) (chosen : Descriptor → Bool) (preset : Option String) : Plan :=
  { plan with
    rules := plan.rules.filter (chosen ·.descriptor)
    config := { plan.config with preset := preset } }

theorem ofPlan_narrow (plan : Plan) (chosen : Descriptor → Bool) (preset : Option String)
    (workplace : Workplace) :
    (∃ error, ofPlan plan workplace = .error error ∧
      ofPlan (plan.narrow chosen preset) workplace = .error error) ∨
    ∃ every few, ofPlan plan workplace = .ok every ∧
      ofPlan (plan.narrow chosen preset) workplace = .ok few ∧ Narrows chosen few every := by
  unfold ofPlan
  dsimp only [Plan.narrow]
  cases (plan.exclude ++ plan.config.scope.exclude).mapM Exclusion.Pattern.parse? with
  | none => exact .inl ⟨_, rfl, rfl⟩
  | some patterns =>
      refine .inr ⟨_, _, rfl, rfl, ?_, rfl, rfl, rfl, rfl⟩
      simp only [List.filter_filter, Bool.and_comm]
      rfl

/-- A violation counts if its rule is chosen, going by the code and the name that it shows. -/
def Follows (chosen : Descriptor → Bool) (keeps : Violation → Bool) : Prop :=
  ∀ (rule : Descriptor) (violation : Violation), violation.code = rule.id →
    violation.rule = rule.name → keeps violation = chosen rule

theorem keeps_of_mem_shownBy (follows : Follows chosen keeps) {config : Config} {root : String}
    {sight : Sight} {rule : Rule} {violation : Violation}
    (member : violation ∈ shownBy config root model sight rule) :
    keeps violation = chosen rule.descriptor := by
  obtain ⟨diagnostic, _, isShown⟩ := List.mem_filterMap.mp member
  unfold shown? at isShown
  split at isShown
  · contradiction
  · cases isShown
    exact follows rule.descriptor _ rfl rfl

theorem shownInTurn_filter (follows : Follows chosen keeps) (rules : List Rule) (config : Config)
    (root : String) (tree : Tree) :
    shownInTurn (rules.filter (chosen ·.descriptor)) config root model tree =
      (shownInTurn rules config root model tree).filter keeps := by
  simp only [shownInTurn, List.filter_flatMap, asked_filter]
  apply List.flatMap_congr
  intro sight _
  have dropped : ∀ rule ∈ asked rules model sight, chosen rule.descriptor = false →
      (shownBy config root model sight rule).filter keeps = [] := by
    intro rule _ unchosen
    apply List.filter_eq_nil_iff.mpr
    intro violation member
    simp [keeps_of_mem_shownBy follows member, unchosen]
  rw [← flatMap_filter_eq dropped]
  apply List.flatMap_congr
  intro rule selected
  symm
  apply List.filter_eq_self.mpr
  intro violation member
  rw [keeps_of_mem_shownBy follows member]
  exact (List.mem_filter.mp selected).2

theorem check_narrowed (narrows : Narrows chosen few every) (follows : Follows chosen keeps)
    (wellFormed : model.WellFormed) (distinct : Distinct every.rules)
    (steady : ∀ rule ∈ every.rules, Steady every.root model rule) :
    ∃ found, every.check model false = ⟨some found, false⟩ ∧
      few.check model false = ⟨some (found.filter keeps), false⟩ := by
  obtain ⟨tree, isTree⟩ := wellFormed.isTree
  have fewDistinct : Distinct few.rules := by
    rw [narrows.rules]
    exact distinct.filter _
  have fewSteady : ∀ rule ∈ few.rules, Steady few.root model rule := by
    intro rule member
    rw [narrows.rules] at member
    rw [narrows.root]
    exact steady rule (List.mem_of_mem_filter member)
  refine ⟨_, check_eq_shownInTurn wellFormed isTree distinct steady, ?_⟩
  rw [check_eq_shownInTurn wellFormed isTree fewDistinct fewSteady, Violation.filter_sort,
    ← shownInTurn_filter follows, narrows.rules, narrows.root,
    shownInTurn_congr fun rule _ => congrFun narrows.severities rule.descriptor]

theorem wellFormed_of_load {file : Discovery.ModelFile} (loaded : load file = .ok model) :
    model.WellFormed := by
  unfold load at loaded
  split at loaded
  · contradiction
  · rename_i text _
    cases read : Model.read text with
    | error reason => simp [read, Except.mapError] at loaded
    | ok other =>
        rw [read] at loaded
        cases loaded
        exact Model.wellFormed_of_check (Model.read_eq_ok_iff.mp read).2

theorem checkFiles_narrowed (narrows : Narrows chosen few every) (follows : Follows chosen keeps)
    (distinct : Distinct every.rules)
    (steady : ∀ model : Model, model.WellFormed →
      ∀ rule ∈ every.rules, Steady every.root model rule)
    (files : List Discovery.ModelFile) (report : Report) :
    few.checkFiles files false (report.restrict keeps) =
      (every.checkFiles files false report).map (Report.restrict keeps) := by
  induction files generalizing report with
  | nil => rfl
  | cons file rest ih =>
      cases loaded : load file with
      | error reason =>
          simp only [checkFiles, loaded, narrows.failOnLoadError]
          split
          · rfl
          · exact ih report
      | ok model =>
          have wellFormed := wellFormed_of_load loaded
          obtain ⟨found, byEvery, byFew⟩ :=
            check_narrowed narrows follows wellFormed distinct (steady model wellFormed)
          have added : (report.restrict keeps).append ⟨found.filter keeps, 1⟩ =
              (report.append ⟨found, 1⟩).restrict keeps := by
            rw [Report.restrict_append]
            rfl
          simp only [checkFiles, loaded, byEvery, byFew, added]
          exact ih (report.append ⟨found, 1⟩)

/-- The files of a tree are found and loaded in the same way, and the report of the chosen rules
is what the report of all rules has of them. -/
theorem checkTree_narrowed (narrows : Narrows chosen few every) (follows : Follows chosen keeps)
    (distinct : Distinct every.rules)
    (steady : ∀ model : Model, model.WellFormed →
      ∀ rule ∈ every.rules, Steady every.root model rule)
    (tree : FileTree) :
    few.checkTree tree false = (every.checkTree tree false).map (Report.restrict keeps) := by
  unfold checkTree
  rw [narrows.search]
  cases every.search.run? tree with
  | none => rfl
  | some files =>
      have inTurn := checkFiles_narrowed narrows follows distinct steady files {}
      change few.checkFiles files false {} = _ at inTurn
      simp only [inTurn]
      cases every.checkFiles files false {} with
      | error reason => rfl
      | ok report => exact congrArg Except.ok Report.restrict_sort.symm

end Analysis

end ModelLint
