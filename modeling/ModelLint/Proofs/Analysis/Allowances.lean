import ModelLint.Proofs.Analysis.ByRule
import ModelLint.Proofs.Rules.Anchors
import ModelLint.Proofs.Rules.Comments

namespace ModelLint

/-! What one more allowance does.

A comment that allows something takes away the violations that it covers at its node and below,
and does nothing else: the rules do not read it, and dropping violations does not disturb the
order of the others. -/

namespace Fallible

theorem reports_filter_map {α β : Type} {keeps : α → Bool} {present : α → β} {holds : α → Prop}
    {places : List α} (exact : ∀ place ∈ places, keeps place = true ↔ holds place) :
    Reports (fun place finding => holds place ∧ finding = present place) places
      ((places.filter keeps).map present) := by
  induction places with
  | nil => exact .nil
  | cons place rest ih =>
      have later := ih fun other member => exact other (List.mem_cons_of_mem _ member)
      have here := exact place List.mem_cons_self
      by_cases kept : keeps place = true
      · rw [List.filter_cons_of_pos kept]
        exact .reported ⟨here.mp kept, rfl⟩ later
      · rw [List.filter_cons_of_neg kept]
        exact .silent (fun finding given => kept (here.mpr given.1)) later

end Fallible

open Fallible

namespace Model

variable {model : Model} {id : NodeId} {node : Node} {before after : List String}
  {comment : String} {allowance : Allowance} {rule : Descriptor}

theorem allowedAt_withComments (found : model.nodes[id]? = some node)
    (split : node.comments = before ++ after) (parsed : Allowance.parse? comment = some allowance)
    (outer : NodeId) :
    (model.withComments id (before ++ comment :: after)).AllowedAt rule outer ↔
      model.AllowedAt rule outer ∨ outer = id ∧ allowance.covers rule = true := by
  by_cases same : id = outer
  · subst same
    have foundAgain := withComments_getElem? model id (before ++ comment :: after) id
    rw [if_pos rfl, found, Option.map_some] at foundAgain
    rw [allowedAt_iff foundAgain, allowedAt_iff found, Allowance.isSome_find?_iff,
      Allowance.isSome_find?_iff, split]
    simp only [List.mem_append, List.mem_cons, true_and]
    constructor
    · rintro ⟨other, inBefore | rfl | inAfter, allowed, otherParsed, covers⟩
      · exact .inl ⟨other, .inl inBefore, allowed, otherParsed, covers⟩
      · cases parsed.symm.trans otherParsed
        exact .inr covers
      · exact .inl ⟨other, .inr inAfter, allowed, otherParsed, covers⟩
    · rintro (⟨other, inBefore | inAfter, allowed⟩ | covers)
      · exact ⟨other, .inl inBefore, allowed⟩
      · exact ⟨other, .inr (.inr inAfter), allowed⟩
      · exact ⟨comment, .inr (.inl rfl), allowance, parsed, covers⟩
  · simp only [AllowedAt, withComments_getElem?, if_neg same, Ne.symm same, false_and, or_false]

end Model

namespace Analysis

variable {analysis : Analysis} {model : Model} {id : NodeId} {node : Node}
  {before after : List String} {comment : String} {allowance : Allowance}
  {diagnostic : Diagnostic} {violation : Violation}

/-- An allowance in front of a node covers the rule of a diagnostic that is anchored there or
below. -/
def Silenced (analysis : Analysis) (model : Model) (allowance : Allowance) (id : NodeId)
    (diagnostic : Diagnostic) : Prop :=
  ∃ rule anchor, analysis.Describes diagnostic.ruleId rule ∧ allowance.covers rule = true ∧
    diagnostic.anchor = some anchor ∧ model.Reaches id anchor

theorem Describes.unique {code : String} {left right : Descriptor}
    (first : analysis.Describes code left) (second : analysis.Describes code right) :
    left = right := by
  rw [← descriptor?_eq_some_iff] at first second
  exact Option.some.inj (first.symm.trans second)

theorem suppressed_withComments (found : model.nodes[id]? = some node)
    (split : node.comments = before ++ after) (parsed : Allowance.parse? comment = some allowance)
    {rule : Descriptor} :
    Suppressed (model.withComments id (before ++ comment :: after)) rule diagnostic ↔
      Suppressed model rule diagnostic ∨ ∃ anchor, diagnostic.anchor = some anchor ∧
        model.Reaches id anchor ∧ allowance.covers rule = true := by
  simp only [Suppressed, Model.reaches_withComments,
    Model.allowedAt_withComments found split parsed]
  constructor
  · rintro ⟨anchor, outer, isAnchor, reached, allowed | ⟨rfl, covers⟩⟩
    · exact .inl ⟨anchor, outer, isAnchor, reached, allowed⟩
    · exact .inr ⟨anchor, isAnchor, reached, covers⟩
  · rintro (⟨anchor, outer, isAnchor, reached, allowed⟩ | ⟨anchor, isAnchor, reached, covers⟩)
    · exact ⟨anchor, outer, isAnchor, reached, .inl allowed⟩
    · exact ⟨anchor, id, isAnchor, reached, .inr ⟨rfl, covers⟩⟩

/-- With one more allowance, a diagnostic is shown as before unless it is silenced. -/
theorem shows_withComments (found : model.nodes[id]? = some node)
    (split : node.comments = before ++ after)
    (parsed : Allowance.parse? comment = some allowance) :
    analysis.Shows (model.withComments id (before ++ comment :: after)) diagnostic violation ↔
      analysis.Shows model diagnostic violation ∧
        ¬ analysis.Silenced model allowance id diagnostic := by
  simp only [Shows, suppressed_withComments found split parsed, not_or]
  constructor
  · rintro ⟨rule, describes, ⟨unsuppressed, uncovered⟩, same⟩
    refine ⟨⟨rule, describes, unsuppressed, same⟩, ?_⟩
    rintro ⟨other, anchor, otherDescribes, covers, isAnchor, reached⟩
    cases describes.unique otherDescribes
    exact uncovered ⟨anchor, isAnchor, reached, covers⟩
  · rintro ⟨⟨rule, describes, unsuppressed, same⟩, unsilenced⟩
    refine ⟨rule, describes, ⟨unsuppressed, ?_⟩, same⟩
    rintro ⟨anchor, isAnchor, reached, covers⟩
    exact unsilenced ⟨rule, anchor, describes, covers, isAnchor, reached⟩

theorem run_withComments (wellFormed : model.WellFormed)
    (blind : ∀ rule ∈ analysis.rules, Rules.Blind rule) (comments : List String) :
    analysis.run (model.withComments id comments) false = analysis.run model false := by
  have commentedWellFormed := (Model.wellFormed_withComments_iff model id comments).mpr wellFormed
  unfold Analysis.run
  rw [← Rules.run_bare _ commentedWellFormed blind, Model.bare_withComments,
    Rules.run_bare _ wellFormed blind]

theorem steady_of_blind (wellFormed : model.WellFormed) {rule : Rule} (blind : Rules.Blind rule)
    (root : String) : Steady root model rule := by
  obtain ⟨builtin, _, rfl⟩ := blind
  exact steady_builtin wellFormed builtin root

theorem check_eq (wellFormed : model.WellFormed)
    (blind : ∀ rule ∈ analysis.rules, Rules.Blind rule) :
    analysis.check model false =
      ⟨some (analysis.violationsOf model (analysis.run model false).diagnostics), false⟩ := by
  obtain ⟨tree, isTree⟩ := wellFormed.isTree
  have ended := Dispatch.run_eq_emissions wellFormed isTree fun rule member =>
    (steady_of_blind wellFormed (blind rule member) analysis.root).patient
  simp only [check, Analysis.run, ended, if_true]

/-- A diagnostic is anchored in the model, or it is about a symbol that the model does not
declare. -/
theorem anchor_of_mem_run (wellFormed : model.WellFormed)
    (blind : ∀ rule ∈ analysis.rules, Rules.Blind rule)
    (emitted : diagnostic ∈ (analysis.run model false).diagnostics) :
    (∃ anchor < model.nodes.size, diagnostic.anchor = some anchor) ∨
      diagnostic.anchor = none ∧ ∃ symbolId symbol, ∃ rule ∈ analysis.rules,
        model.symbols[symbolId]? = some symbol ∧ symbol.declaration = none ∧
        diagnostic ∈ Dispatch.emission analysis.root model (.symbol symbolId) rule := by
  obtain ⟨tree, isTree⟩ := wellFormed.isTree
  have steady (rule : Rule) (member : rule ∈ analysis.rules) :=
    steady_of_blind wellFormed (blind rule member) analysis.root
  rw [Analysis.run, Dispatch.run_eq_emissions wellFormed isTree
    fun rule member => (steady rule member).patient] at emitted
  simp only [List.mem_flatMap, Dispatch.emissions] at emitted
  obtain ⟨sight, _, rule, isAsked, emitted⟩ := emitted
  obtain ⟨member, interest, seen, wanted⟩ := mem_asked.mp isAsked
  have emittedHere := emitted
  rw [Dispatch.emission, (steady rule member).faultless sight interest seen wanted,
    List.append_nil] at emittedHere
  obtain ⟨finding, reported, rfl⟩ := List.mem_map.mp emittedHere
  obtain ⟨builtin, _, rfl⟩ := blind rule member
  cases sight with
  | node id =>
      obtain ⟨node, found, _⟩ := Option.map_eq_some_iff.mp seen
      exact .inl (builtin.onNode_anchors (Model.lt_size_of_found found) finding reported)
  | symbol id =>
      rcases builtin.onSymbol_anchors finding reported with anchored | ⟨free, symbol, found, none⟩
      · exact .inl anchored
      · exact .inr ⟨free, id, symbol, _, member, found, none, emitted⟩

/-- The diagnostics that are shown, each with its violation. -/
def shownPairs (analysis : Analysis) (model : Model) (diagnostics : List Diagnostic) :
    List (Diagnostic × Violation) :=
  diagnostics.filterMap fun diagnostic =>
    (analysis.violation? model diagnostic).map fun violation => (diagnostic, violation)

theorem mem_shownPairs {diagnostics : List Diagnostic} {pair : Diagnostic × Violation} :
    pair ∈ analysis.shownPairs model diagnostics ↔
      pair.1 ∈ diagnostics ∧ analysis.violation? model pair.1 = some pair.2 := by
  simp only [shownPairs, List.mem_filterMap, Option.map_eq_some_iff]
  constructor
  · rintro ⟨diagnostic, member, violation, shown, rfl⟩
    exact ⟨member, shown⟩
  · rintro ⟨member, shown⟩
    exact ⟨pair.1, member, pair.2, shown, rfl⟩

theorem shownPairs_map (diagnostics : List Diagnostic) :
    (analysis.shownPairs model diagnostics).map (·.2) =
      diagnostics.filterMap (analysis.violation? model) := by
  rw [shownPairs, List.map_filterMap]
  apply List.filterMap_congr
  intro diagnostic _
  cases analysis.violation? model diagnostic <;> rfl

theorem shownPairs_filter_map {other : Model}
    (fewer : ∀ diagnostic violation, analysis.violation? other diagnostic = some violation →
      analysis.violation? model diagnostic = some violation) (diagnostics : List Diagnostic) :
    ((analysis.shownPairs model diagnostics).filter
        fun pair => (analysis.violation? other pair.1).isSome).map (·.2) =
      diagnostics.filterMap (analysis.violation? other) := by
  rw [shownPairs, List.filter_filterMap, List.map_filterMap]
  apply List.filterMap_congr
  intro diagnostic _
  cases kept : analysis.violation? other diagnostic with
  | some violation => simp [fewer diagnostic violation kept, kept, Option.filter]
  | none => cases analysis.violation? model diagnostic <;> simp [kept, Option.filter]

theorem reports_shownPairs (wellFormed : model.WellFormed) (diagnostics : List Diagnostic) :
    Reports (fun diagnostic pair => pair.1 = diagnostic ∧ analysis.Shows model diagnostic pair.2)
      diagnostics (analysis.shownPairs model diagnostics) := by
  apply reports_filterMap
  intro diagnostic _ pair
  simp only [Option.map_eq_some_iff, violation?_eq_some_iff wellFormed]
  constructor
  · rintro ⟨violation, shows, rfl⟩
    exact ⟨rfl, shows⟩
  · rintro ⟨rfl, shows⟩
    exact ⟨pair.2, shows, rfl⟩

/-- Where another model silences some diagnostics and shows the rest in the same way, the sorted
violations are the same without those of the silenced diagnostics. -/
theorem violationsOf_silenced {other : Model} {silenced : Diagnostic → Prop}
    (exact : ∀ diagnostic violation, analysis.violation? other diagnostic = some violation ↔
      analysis.violation? model diagnostic = some violation ∧ ¬ silenced diagnostic)
    (diagnostics : List Diagnostic) :
    ∃ shown : List (Diagnostic × Violation),
      shown.Perm (analysis.shownPairs model diagnostics) ∧
      analysis.violationsOf model diagnostics = shown.map (·.2) ∧
      Reports (fun pair violation => ¬ silenced pair.1 ∧ violation = pair.2) shown
        (analysis.violationsOf other diagnostics) := by
  obtain ⟨shown, perm, sorted, fewer⟩ := Violation.exists_sorted (fun pair => pair.2)
    (fun pair => (analysis.violation? other pair.1).isSome) (analysis.shownPairs model diagnostics)
  rw [shownPairs_map] at sorted
  rw [shownPairs_filter_map fun diagnostic violation kept =>
    ((exact diagnostic violation).mp kept).1] at fewer
  refine ⟨shown, perm, sorted, ?_⟩
  rw [violationsOf, fewer]
  apply reports_filter_map
  intro pair member
  have shows := (mem_shownPairs.mp (perm.mem_iff.mp member)).2
  simp [Option.isSome_iff_exists, exact, shows]

/-- A comment with an allowance in front of a node of an accepted model takes away the violations
that it silences and leaves the others as they are, in their order. An allowance for everything
in front of the root leaves only what has no anchor, which is about symbols that the model does
not declare. -/
theorem check_withComments (accepted : model.check = .ok ())
    (found : model.nodes[id]? = some node) (split : node.comments = before ++ after)
    (parsed : Allowance.parse? comment = some allowance)
    (blind : ∀ rule ∈ analysis.rules, Rules.Blind rule) :
    ∃ (raw shown : List (Diagnostic × Violation)) (kept : List Violation),
      Reports (fun diagnostic pair => pair.1 = diagnostic ∧ analysis.Shows model diagnostic pair.2)
        (analysis.run model false).diagnostics raw ∧
      shown.Perm raw ∧
      analysis.check model false = ⟨some (shown.map (·.2)), false⟩ ∧
      (model.withComments id (before ++ comment :: after)).check = .ok () ∧
      analysis.check (model.withComments id (before ++ comment :: after)) false =
        ⟨some kept, false⟩ ∧
      Reports (fun pair violation =>
        ¬ analysis.Silenced model allowance id pair.1 ∧ violation = pair.2) shown kept ∧
      (id = model.root → "all" ∈ allowance.rules →
        Reports (fun pair violation => pair.1.anchor = none ∧ violation = pair.2) shown kept) ∧
      ∀ pair ∈ shown, pair.1.anchor = none → ∃ symbolId symbol, ∃ rule ∈ analysis.rules,
        model.symbols[symbolId]? = some symbol ∧ symbol.declaration = none ∧
        pair.1 ∈ Dispatch.emission analysis.root model (.symbol symbolId) rule := by
  have wellFormed := Model.wellFormed_of_check accepted
  have commented := (Model.wellFormed_withComments_iff model id (before ++ comment :: after)).mpr
    wellFormed
  have exact (diagnostic : Diagnostic) (violation : Violation) :
      analysis.violation? (model.withComments id (before ++ comment :: after)) diagnostic =
          some violation ↔
        analysis.violation? model diagnostic = some violation ∧
          ¬ analysis.Silenced model allowance id diagnostic := by
    rw [violation?_eq_some_iff commented, violation?_eq_some_iff wellFormed,
      shows_withComments found split parsed]
  obtain ⟨shown, perm, sorted, reports⟩ :=
    violationsOf_silenced exact (analysis.run model false).diagnostics
  have members (pair : Diagnostic × Violation) (member : pair ∈ shown) :=
    mem_shownPairs.mp (perm.mem_iff.mp member)
  refine ⟨_, shown, _, reports_shownPairs wellFormed _, perm, ?_,
    Model.check_of_wellFormed commented, ?_, reports, ?_, ?_⟩
  · rw [check_eq wellFormed blind, sorted]
  · rw [check_eq commented blind, run_withComments wellFormed blind]
  · intro isRoot everything
    refine reports.congr fun pair member violation => and_congr_left fun _ => ?_
    obtain ⟨emitted, shows⟩ := members pair member
    obtain ⟨rule, describes, _⟩ := (violation?_eq_some_iff wellFormed).mp shows
    constructor
    · intro unsilenced
      rcases anchor_of_mem_run wellFormed blind emitted with ⟨anchor, inside, isAnchor⟩ | free
      · refine absurd ⟨rule, anchor, describes, ?_, isAnchor, ?_⟩ unsilenced
        · simp [Allowance.covers, everything]
        · rw [isRoot]
          exact wellFormed.reached anchor inside
      · exact free.1
    · rintro free ⟨_, anchor, _, _, isAnchor, _⟩
      simp [free] at isAnchor
  · intro pair member free
    rcases anchor_of_mem_run wellFormed blind (members pair member).1 with anchored | symbol
    · obtain ⟨anchor, _, isAnchor⟩ := anchored
      simp [free] at isAnchor
    · exact symbol.2

/-- A table with two fields that have no caption, one of which is not declared here. -/
def ledger : Model where
  filePath := "Ledger.al"
  nodes := #[
    { kind := .compilationUnit, children := [1],
      comments := ["// Ledger", "// cital-lint: allow()"] },
    { kind := .object .table, parent := some 0, children := [2], declares := some 0 },
    { kind := .field, parent := some 1, declares := some 1 }]
  symbols := #[
    { name := "Ledger", kind := .object .table, declaration := some 1 },
    { name := "Amount", kind := .field, container := some 0, declaration := some 2 },
    { name := "Balance", kind := .field, container := some 0 }]

def captionAnalysis : Analysis where
  root := "/"
  rules := [Rules.MissingCaption.rule]
  exclude := []
  config := {}
  failOnLoadError := false
  workplace := default

theorem check_withComments_ledger :
    (captionAnalysis.run ledger false).diagnostics.map (·.anchor) = [some 2, none] ∧
    ∃ (shown : List (Diagnostic × Violation)) (kept : List Violation),
      captionAnalysis.check ledger false = ⟨some (shown.map (·.2)), false⟩ ∧
      captionAnalysis.check (ledger.withComments 0
        ["// Ledger", "/* cital-lint: allow(All) */", "// cital-lint: allow()"]) false =
          ⟨some kept, false⟩ ∧
      Reports (fun pair violation => pair.1.anchor = none ∧ violation = pair.2) shown kept ∧
      kept.map (·.message) = ["Field 'Balance' has no Caption"] := by
  have accepted : ledger.check = .ok () := by decide +kernel
  have parsed : Allowance.parse? "/* cital-lint: allow(All) */" = some ⟨["all"], none⟩ := by
    decide +kernel
  have blind : ∀ rule ∈ captionAnalysis.rules, Rules.Blind rule := by
    intro rule member
    obtain rfl := List.mem_singleton.mp member
    exact ⟨.missingCaption, by simp, rfl⟩
  have found : ledger.nodes[0]? = some ledger.nodes[0] := rfl
  have split : ledger.nodes[0].comments = ["// Ledger"] ++ ["// cital-lint: allow()"] := rfl
  obtain ⟨_, shown, kept, _, _, answered, _, commented, _, atRoot, _⟩ :=
    check_withComments accepted found split parsed blind
  have allowed : (captionAnalysis.check (ledger.withComments 0
      ["// Ledger", "/* cital-lint: allow(All) */", "// cital-lint: allow()"])
        false).violations.map (·.map (·.message)) = some ["Field 'Balance' has no Caption"] := by
    decide +kernel
  simp only [List.cons_append, List.nil_append] at commented
  rw [commented] at allowed
  exact ⟨by decide +kernel, shown, kept, answered, commented, atRoot rfl (by simp),
    Option.some.inj allowed⟩

end Analysis

end ModelLint
