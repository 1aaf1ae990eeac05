import ModelLint.Analysis
import ModelLint.Proofs.Model.Ancestry
import ModelLint.Proofs.Violation

namespace ModelLint

/-! What the diagnostics of a run amount to.

A diagnostic is shown as a violation unless no rule goes by its code or a comment allows the
rule to be broken. The violations are sorted, and that is all that becomes of them. -/

open Fallible Text

namespace Allowance

theorem covers_iff {allowance : Allowance} {rule : Descriptor} :
    allowance.covers rule = true ↔ ∃ key ∈ allowance.rules,
      key = "all" ∨ sameIgnoringCase key rule.id = true ∨
        sameIgnoringCase key rule.name = true := by
  simp only [covers, Bool.or_eq_true, List.contains_iff_mem, List.any_eq_true,
    Descriptor.answersTo]
  constructor
  · intro given
    rcases given with all | ⟨key, member, answers⟩
    · exact ⟨"all", all, .inl rfl⟩
    · exact ⟨key, member, .inr answers⟩
  · intro given
    obtain ⟨key, member, rfl | answers⟩ := given
    · exact .inl member
    · exact .inr ⟨key, member, answers⟩

theorem isSome_find?_iff {comments : List String} {rule : Descriptor} :
    (find? comments rule).isSome = true ↔
      ∃ comment ∈ comments, ∃ allowance, parse? comment = some allowance ∧
        allowance.covers rule = true := by
  simp only [find?, List.find?_isSome, List.mem_filterMap]
  constructor
  · intro given
    obtain ⟨allowance, ⟨comment, member, parsed⟩, covers⟩ := given
    exact ⟨comment, member, allowance, parsed, covers⟩
  · intro given
    obtain ⟨comment, member, allowance, parsed, covers⟩ := given
    exact ⟨allowance, ⟨comment, member, parsed⟩, covers⟩

end Allowance

namespace Model

variable {model : Model} {id : NodeId}

/-- A comment at a node allows a rule to be broken. -/
def AllowedAt (model : Model) (rule : Descriptor) (id : NodeId) : Prop :=
  ∃ node comment allowance, model.nodes[id]? = some node ∧ comment ∈ node.comments ∧
    Allowance.parse? comment = some allowance ∧
    ∃ key ∈ allowance.rules,
      key = "all" ∨ sameIgnoringCase key rule.id = true ∨ sameIgnoringCase key rule.name = true

theorem allowedAt_iff {node : Node} (found : model.nodes[id]? = some node) {rule : Descriptor} :
    model.AllowedAt rule id ↔ (Allowance.find? node.comments rule).isSome = true := by
  rw [Allowance.isSome_find?_iff]
  constructor
  · intro given
    obtain ⟨other, comment, allowance, otherFound, member, parsed, covers⟩ := given
    obtain rfl : node = other := by simpa [found] using otherFound
    exact ⟨comment, member, allowance, parsed, Allowance.covers_iff.mpr covers⟩
  · intro given
    obtain ⟨comment, member, allowance, parsed, covers⟩ := given
    exact ⟨node, comment, allowance, found, member, parsed, Allowance.covers_iff.mp covers⟩

theorem allowanceAmong_decides (rule : Descriptor) {ids : List NodeId}
    (inside : ∀ id ∈ ids, id < model.nodes.size) :
    ∃ found, model.allowanceAmong rule ids = .ok found ∧
      (found.isSome = true ↔ ∃ id ∈ ids, model.AllowedAt rule id) := by
  induction ids with
  | nil => exact ⟨none, rfl, by simp⟩
  | cons id rest ih =>
      obtain ⟨node, here⟩ := found_of_lt_size (inside id (by simp))
      obtain ⟨later, searched, exact⟩ :=
        ih fun other member => inside other (List.mem_cons_of_mem _ member)
      have allowed : model.AllowedAt rule id ↔ _ := allowedAt_iff here
      simp only [allowanceAmong, node_eq_ok here, bind, Except.bind, List.mem_cons,
        exists_eq_or_imp]
      rw [allowed]
      cases Allowance.find? node.comments rule with
      | some allowance => exact ⟨some allowance, rfl, by simp⟩
      | none => exact ⟨later, searched, by simpa using exact⟩

theorem allowance_decides (wellFormed : model.WellFormed) (inside : id < model.nodes.size)
    (rule : Descriptor) :
    ∃ found, model.allowance id rule = .ok found ∧
      (found.isSome = true ↔ ∃ outer, model.Reaches outer id ∧ model.AllowedAt rule outer) := by
  obtain ⟨line, above⟩ := wellFormed.line inside
  obtain ⟨found, searched, exact⟩ :=
    allowanceAmong_decides rule (above.inside_self wellFormed)
  refine ⟨found, ?_, exact.trans ?_⟩
  · simp only [allowance, above.ancestorsAndSelf_eq_ok wellFormed, bind, Except.bind, searched]
  · have around : ∀ outer, outer ∈ id :: line ↔ model.Reaches outer id := by
      intro outer
      rw [List.mem_cons, above.mem_iff wellFormed, eq_comm]
      exact Relation.reflTransGen_iff_eq_or_transGen.symm
    simp only [around]

end Model

namespace Analysis

variable {analysis : Analysis} {model : Model} {diagnostic : Diagnostic}

/-- The descriptor that goes by an id: that of failed rules, or that of the first rule with
the id. -/
def Describes (analysis : Analysis) (id : String) (rule : Descriptor) : Prop :=
  (id = "CIG9999" ∧ rule = Descriptor.ruleFault) ∨
  (id ≠ "CIG9999" ∧ ∃ before first after, analysis.rules = before ++ first :: after ∧
    (∀ earlier ∈ before, earlier.descriptor.id ≠ id) ∧ first.descriptor.id = id ∧
    rule = first.descriptor)

/-- A comment in front of the anchor of a diagnostic, or of a node around it, allows the rule
to be broken. -/
def Suppressed (model : Model) (rule : Descriptor) (diagnostic : Diagnostic) : Prop :=
  ∃ anchor outer, diagnostic.anchor = some anchor ∧ model.Reaches outer anchor ∧
    model.AllowedAt rule outer

/-- A diagnostic is shown as a violation. -/
def Shows (analysis : Analysis) (model : Model) (diagnostic : Diagnostic) (violation : Violation) :
    Prop :=
  ∃ rule, analysis.Describes diagnostic.ruleId rule ∧ ¬ Suppressed model rule diagnostic ∧
    violation = {
      code := rule.id
      rule := rule.name
      severity := (analysis.config.severityOf? rule).getD rule.severity
      location := match diagnostic.place with
        | .span span => ⟨span, model.filePath⟩
        | .file => ⟨⟨0, 0, 0, 0⟩, model.filePath⟩
      message := rule.format diagnostic.args
      category := rule.category
      help := some rule.title }

theorem descriptor?_eq_some_iff {id : String} {rule : Descriptor} :
    analysis.descriptor? id = some rule ↔ analysis.Describes id rule := by
  by_cases isFault : id = "CIG9999"
  · subst isFault
    simp [descriptor?, Describes, Descriptor.ruleFault, eq_comm]
  · have other : Descriptor.ruleFault.id ≠ id := Ne.symm isFault
    simp only [descriptor?, Describes, isFault, false_and, false_or, ne_eq, not_false_eq_true,
      true_and, List.find?_cons, other, decide_false]
    rw [List.find?_map, Option.map_eq_some_iff]
    simp only [List.find?_eq_some_iff_append, Function.comp_apply, decide_eq_true_eq]
    constructor
    · intro given
      obtain ⟨first, ⟨same, before, after, split, others⟩, rfl⟩ := given
      refine ⟨before, first, after, split, fun earlier member => ?_, same, rfl⟩
      simpa using others earlier member
    · intro given
      obtain ⟨before, first, after, split, others, same, rfl⟩ := given
      refine ⟨first, ⟨same, before, after, split, fun earlier member => ?_⟩, rfl⟩
      simpa using others earlier member

theorem isAllowed_iff (wellFormed : model.WellFormed) {rule : Descriptor} :
    isAllowed model rule diagnostic = true ↔ Suppressed model rule diagnostic := by
  cases given : diagnostic.anchor with
  | none => simp [isAllowed, Suppressed, given]
  | some anchor =>
      simp only [isAllowed, Suppressed, given, Option.some.injEq, exists_and_left, exists_eq_left']
      by_cases inside : anchor < model.nodes.size
      · obtain ⟨found, searched, exact⟩ := Model.allowance_decides wellFormed inside rule
        rw [searched]
        exact exact
      · -- An anchor outside the arena has no comments, and no node of the arena leads to it.
        have absent : model.nodes[anchor]? = none := by simpa using inside
        have failed : model.allowance anchor rule = .error (.node anchor) := by
          simp [Model.allowance, Model.ancestorsAndSelf, absent, bind, Except.bind]
        rw [failed]
        simp only [Bool.false_eq_true, false_iff]
        rintro ⟨outer, reached, node, _, _, found, _⟩
        exact inside
          (Model.lt_size_of_reaches wellFormed (Model.lt_size_of_found found) reached)

theorem violation?_eq_some_iff (wellFormed : model.WellFormed) {violation : Violation} :
    analysis.violation? model diagnostic = some violation ↔
      analysis.Shows model diagnostic violation := by
  simp only [violation?, bind, Option.bind_eq_some_iff, Shows, descriptor?_eq_some_iff]
  refine exists_congr fun rule => and_congr_right fun _ => ?_
  by_cases allowed : isAllowed model rule diagnostic = true
  · have suppressed := (isAllowed_iff wellFormed).mp allowed
    simp [allowed, suppressed]
  · have shown : ¬ Suppressed model rule diagnostic := fun suppressed =>
      allowed ((isAllowed_iff wellFormed).mpr suppressed)
    simp only [allowed, shown, Bool.false_eq_true, if_false, pure, Option.some.injEq,
      not_false_eq_true, true_and]
    cases diagnostic.place with
    | span span => exact eq_comm
    | file => exact eq_comm

/-- Checking an accepted model shows every diagnostic of the run once that a known rule has
emitted and no comment suppresses, and nothing else. What is shown is in order, and what ties
stays in the order in which it was emitted. -/
theorem check_violations (accepted : model.check = .ok ()) {cancelled : Bool}
    (completed : (analysis.run model cancelled).completed = true) :
    ∃ raw sorted, (analysis.check model cancelled).violations = some sorted ∧
      Reports (analysis.Shows model) (analysis.run model cancelled).diagnostics raw ∧
      sorted.Perm raw ∧
      (sorted.Pairwise fun earlier later => earlier.Precedes later ∨ earlier.Ties later) ∧
      ∀ violation, sorted.filter (·.Ties violation) = raw.filter (·.Ties violation) := by
  have wellFormed := Model.wellFormed_of_check accepted
  refine ⟨(analysis.run model cancelled).diagnostics.filterMap (analysis.violation? model),
    analysis.violationsOf model (analysis.run model cancelled).diagnostics, ?_, ?_, ?_, ?_, ?_⟩
  · simp only [check, completed, if_true]
  · exact reports_filterMap fun diagnostic _ violation => violation?_eq_some_iff wellFormed
  · exact Violation.sort_perm _
  · exact Violation.sort_pairwise _
  · exact Violation.sort_filter_ties _

/-- Three exit statements, the second of them below a comment that allows it. -/
def exits : Model where
  filePath := "Exits.al"
  nodes := #[
    { kind := .compilationUnit, children := [1, 2, 4] },
    { kind := .exitStatement, span := ⟨7, 1, 60, 5⟩, parent := some 0 },
    { kind := .block, span := ⟨2, 1, 10, 20⟩, parent := some 0, children := [3],
      comments := ["// cital-lint: allow(no-exit)"] },
    { kind := .exitStatement, span := ⟨3, 1, 15, 5⟩, parent := some 2 },
    { kind := .exitStatement, span := ⟨5, 1, 40, 5⟩, parent := some 0 }]
  symbols := #[]

def noExit : Rule where
  descriptor := { Descriptor.ruleFault with id := "TEST001", name := "no-exit" }
  interests := [.node .exitStatement]
  onNode context id := .ofCheck do return [← context.model.findingAt id []]

def exitAnalysis : Analysis where
  root := "/"
  rules := [noExit]
  exclude := []
  config := {}
  failOnLoadError := false
  workplace := default

/-- The violation at an exit statement. -/
def exitAt (line offset : Nat) : Violation where
  code := "TEST001"
  rule := "no-exit"
  severity := .warning
  location := ⟨⟨line, 1, offset, 5⟩, "Exits.al"⟩
  message := "Rule '\x7b0\x7d' failed: \x7b1\x7d"
  category := "Internal"
  help := some "A rule failed while analyzing this file"

theorem sort_exits :
    Violation.sort [exitAt 7 60, exitAt 5 40] = [exitAt 5 40, exitAt 7 60] := by
  rw [Violation.sort, mergeSort_cons_eq Violation.isLE_trans Violation.isLE_total,
    mergeSort_cons_eq Violation.isLE_trans Violation.isLE_total, List.mergeSort_nil]
  decide +kernel

/-- The allowed statement is passed over, and of the other two the later one comes first. -/
theorem check_violations_exits :
    (exitAnalysis.run exits false).diagnostics.map (·.anchor) = [some 1, some 3, some 4] ∧
    (∀ diagnostic ∈ (exitAnalysis.run exits false).diagnostics,
      Suppressed exits noExit.descriptor diagnostic ↔ diagnostic.anchor = some 3) ∧
    (exitAnalysis.check exits false).violations = some [exitAt 5 40, exitAt 7 60] ∧
    ∃ raw, Reports (exitAnalysis.Shows exits) (exitAnalysis.run exits false).diagnostics raw ∧
      [exitAt 5 40, exitAt 7 60].Perm raw ∧
      [exitAt 5 40, exitAt 7 60].Pairwise fun earlier later =>
        earlier.Precedes later ∨ earlier.Ties later := by
  have accepted : exits.check = .ok () := by decide +kernel
  have completed : (exitAnalysis.run exits false).completed = true := by decide +kernel
  have emitted : (exitAnalysis.run exits false).diagnostics.filterMap
      (exitAnalysis.violation? exits) = [exitAt 7 60, exitAt 5 40] := by decide +kernel
  have found : (exitAnalysis.check exits false).violations =
      some [exitAt 5 40, exitAt 7 60] := by
    rw [check, completed, if_pos rfl, violationsOf, emitted, sort_exits]
  have allowed : ∀ diagnostic ∈ (exitAnalysis.run exits false).diagnostics,
      isAllowed exits noExit.descriptor diagnostic = true ↔ diagnostic.anchor = some 3 := by
    decide +kernel
  obtain ⟨raw, sorted, shown, reports, perm, inOrder, _⟩ := check_violations accepted completed
  obtain rfl := Option.some.inj (shown.symm.trans found)
  refine ⟨by decide +kernel, fun diagnostic member => ?_, found, raw, reports, perm, inOrder⟩
  rw [← isAllowed_iff (Model.wellFormed_of_check accepted)]
  exact allowed diagnostic member

end Analysis

end ModelLint
