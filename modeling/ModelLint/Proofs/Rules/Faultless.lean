import ModelLint.Catalog
import ModelLint.Proofs.Dispatch
import ModelLint.Proofs.Rules.ProjectStructure.Positions

namespace ModelLint.Rules

/-! No rule fails on an accepted model.

A rule that fails leaves a fault in the record of the run. The rules there are never do,
whichever of them are chosen, with whatever options and settings. -/

open Dispatch (Sight)

/-- One of the rules there are, with its options. -/
inductive Builtin where
  | projectStructure (organization : String) (settings : SettingsSource)
  | missingCaption
  | dataClassification (settings : SettingsSource)
  | varParameter
  | setLoadFields (threshold : Nat)
  | calcFields
  | textBuilder
  | sourceExpression

def Builtin.rule : Builtin → Rule
  | projectStructure organization settings => ProjectStructure.rule organization settings
  | missingCaption => MissingCaption.rule
  | dataClassification settings => DataClassification.rule settings
  | varParameter => VarParameter.rule
  | setLoadFields threshold => SetLoadFields.rule threshold
  | calcFields => CalcFields.rule
  | textBuilder => TextBuilder.rule
  | sourceExpression => SourceExpression.rule

variable {model : Model} {id : NodeId}

theorem fault_ofCheck {check : Except MissingId (List Finding)}
    (succeeds : Fallible.Succeeds check) : (Outcome.ofCheck check).fault = none := by
  obtain ⟨findings, isOk⟩ := succeeds
  rw [isOk, Outcome.ofCheck]

theorem cancels_ofCheck (check : Except MissingId (List Finding)) :
    (Outcome.ofCheck check).cancels = false := by
  cases check with
  | ok findings => rfl
  | error missing => rfl

theorem ProjectStructure.onNode_eq (wellFormed : model.WellFormed) (organization : String)
    (settings : SettingsSource) (path : String) (cancelled : Bool) {kind : ObjectKind}
    (isObject : (model.nodes[id]?).bind (·.kind.objectKind?) = some kind) :
    ∃ findings,
      checkByPosition organization settings ⟨model, path, cancelled⟩ id kind = .ok findings ∧
      (rule organization settings).onNode ⟨model, path, cancelled⟩ id =
        { findings := findings } := by
  obtain ⟨node, found, _⟩ := Option.bind_eq_some_iff.mp isObject
  obtain ⟨findings, byPosition, checked⟩ := checkByPosition_eq_ok wellFormed organization settings
    path cancelled (Model.lt_size_of_found found) kind
  refine ⟨findings, byPosition, ?_⟩
  simp only [rule, isObject, checked, Outcome.ofCheck]

theorem ProjectStructure.isObject_of_wanted {node : Node} {organization : String}
    {settings : SettingsSource} (found : model.nodes[id]? = some node)
    (wanted : .node node.kind ∈ (rule organization settings).interests) :
    ∃ kind, (model.nodes[id]?).bind (·.kind.objectKind?) = some kind := by
  obtain ⟨kind, _, same⟩ := List.mem_map.mp wanted
  have isObject : node.kind = .object kind := by simpa using same.symm
  exact ⟨kind, by simp [found, isObject, NodeKind.objectKind?]⟩

namespace Builtin

theorem fault_eq_none (wellFormed : model.WellFormed) (builtin : Builtin) {path : String}
    {cancelled : Bool} {sight : Sight} {interest : Interest}
    (shown : sight.interest? model = some interest)
    (wanted : interest ∈ builtin.rule.interests) :
    (sight.outcome builtin.rule ⟨model, path, cancelled⟩).fault = none := by
  cases sight with
  | node id =>
      obtain ⟨node, found, rfl⟩ := Option.map_eq_some_iff.mp shown
      have inside := Model.lt_size_of_found found
      cases builtin with
      | projectStructure organization settings =>
          -- This rule could also fail on a node that is no object, but asks for objects alone.
          obtain ⟨kind, isObject⟩ := ProjectStructure.isObject_of_wanted found wanted
          obtain ⟨findings, _, outcome⟩ :=
            ProjectStructure.onNode_eq wellFormed organization settings path cancelled isObject
          exact congrArg Outcome.fault outcome
      | missingCaption => rfl
      | dataClassification settings => rfl
      | varParameter => exact fault_ofCheck (VarParameter.check_succeeds wellFormed inside)
      | setLoadFields threshold =>
          exact fault_ofCheck (SetLoadFields.check_succeeds wellFormed threshold inside)
      | calcFields => exact fault_ofCheck (CalcFields.check_succeeds wellFormed inside)
      | textBuilder => exact fault_ofCheck (TextBuilder.check_succeeds wellFormed inside)
      | sourceExpression => exact fault_ofCheck (SourceExpression.check_succeeds wellFormed inside)
  | symbol id =>
      obtain ⟨symbol, found, _⟩ := Option.map_eq_some_iff.mp shown
      have inside := (Array.getElem?_eq_some_iff.mp found).1
      cases builtin with
      | missingCaption => exact fault_ofCheck (MissingCaption.check_succeeds wellFormed inside)
      | dataClassification settings =>
          exact fault_ofCheck (DataClassification.check_succeeds wellFormed settings inside)
      | _ => rfl

theorem patient (builtin : Builtin) (root : String) :
    Dispatch.Patient root model builtin.rule := by
  intro sight
  cases sight with
  | node id =>
      cases builtin with
      | projectStructure organization settings =>
          simp only [Sight.outcome, rule, ProjectStructure.rule]
          split
          · exact cancels_ofCheck _
          · rfl
      | missingCaption => rfl
      | dataClassification settings => rfl
      | _ => exact cancels_ofCheck _
  | symbol id =>
      cases builtin with
      | missingCaption => exact cancels_ofCheck _
      | dataClassification settings => exact cancels_ofCheck _
      | _ => rfl

theorem id_ne_ruleFault (builtin : Builtin) : builtin.rule.descriptor.id ≠ "CIG9999" := by
  have distinct : ∀ descriptor ∈ Catalog.descriptors.dropLast, descriptor.id ≠ "CIG9999" := by
    decide
  refine distinct builtin.rule.descriptor ?_
  cases builtin <;> simp [Catalog.descriptors, rule, ProjectStructure.rule, MissingCaption.rule,
    DataClassification.rule, VarParameter.rule, SetLoadFields.rule, CalcFields.rule,
    TextBuilder.rule, SourceExpression.rule]

theorem ruleId_ne_of_mem_emission (wellFormed : model.WellFormed) (builtin : Builtin)
    {root : String} {sight : Sight} {interest : Interest} {diagnostic : Diagnostic}
    (shown : sight.interest? model = some interest) (wanted : interest ∈ builtin.rule.interests)
    (emitted : diagnostic ∈ Dispatch.emission root model sight builtin.rule) :
    diagnostic.ruleId ≠ "CIG9999" := by
  rw [Dispatch.emission, fault_eq_none wellFormed builtin shown wanted, List.append_nil] at emitted
  obtain ⟨finding, _, rfl⟩ := List.mem_map.mp emitted
  exact builtin.id_ne_ruleFault

end Builtin

/-- A run of any of the rules over an accepted model, with any options and settings, comes to
its end and records no fault: a rule that is shown something it asks for does not fail. The
places that the first rule judges are judged without a position out of range. -/
theorem run_faultless (accepted : model.check = .ok ()) (selection : List Builtin) (root : String) :
    (Dispatch.run (selection.map Builtin.rule) root model false).completed = true ∧
    (∀ diagnostic ∈ (Dispatch.run (selection.map Builtin.rule) root model false).diagnostics,
      diagnostic.ruleId ≠ "CIG9999") ∧
    (∀ builtin ∈ selection, ∀ sight interest, Sight.interest? model sight = some interest →
      interest ∈ builtin.rule.interests →
      (sight.outcome builtin.rule ⟨model, Path.join root model.filePath, false⟩).fault = none) ∧
    ∀ organization settings id kind,
      (model.nodes[id]?).bind (·.kind.objectKind?) = some kind →
      ∃ findings,
        ProjectStructure.checkByPosition organization settings
          ⟨model, Path.join root model.filePath, false⟩ id kind = .ok findings ∧
        (ProjectStructure.rule organization settings).onNode
          ⟨model, Path.join root model.filePath, false⟩ id = { findings := findings } := by
  have wellFormed := Model.wellFormed_of_check accepted
  obtain ⟨tree, isTree⟩ := wellFormed.isTree
  have patient : ∀ rule ∈ selection.map Builtin.rule, Dispatch.Patient root model rule := by
    intro rule member
    obtain ⟨builtin, _, rfl⟩ := List.mem_map.mp member
    exact builtin.patient root
  rw [Dispatch.run_eq_emissions wellFormed isTree patient]
  refine ⟨rfl, fun diagnostic member => ?_, fun builtin _ sight interest shown wanted => ?_,
    fun organization settings id kind isObject => ?_⟩
  · obtain ⟨sight, _, emitted⟩ := List.mem_flatMap.mp member
    obtain ⟨rule, asked, emission⟩ := List.mem_flatMap.mp emitted
    obtain ⟨chosen, asks⟩ := List.mem_filter.mp asked
    obtain ⟨builtin, _, rfl⟩ := List.mem_map.mp chosen
    simp only [Option.any_eq_true, List.contains_iff_mem] at asks
    obtain ⟨interest, shown, wanted⟩ := asks
    exact builtin.ruleId_ne_of_mem_emission wellFormed shown wanted emission
  · exact builtin.fault_eq_none wellFormed shown wanted
  · exact ProjectStructure.onNode_eq wellFormed organization settings _ _ isObject

/-- A codeunit that lies in the folder of another kind, and a field without a caption. -/
def strayCodeunit : Model where
  filePath := "Sales/App/Page/Stray.al"
  nodes := #[
    { kind := .compilationUnit, children := [1] },
    { kind := .object .codeunit, span := ⟨1, 1, 0, 40⟩, parent := some 0, children := [2] },
    { kind := .procedure, span := ⟨2, 3, 10, 20⟩, parent := some 1, declares := some 1 }]
  symbols := #[
    { name := "Customer", kind := .object .table },
    { name := "Name", kind := .field, container := some 0 }]

theorem run_faultless_strayCodeunit :
    strayCodeunit.check = .ok () ∧
    (∀ diagnostic ∈ (Dispatch.run (Catalog.rules (.fixed none)) "" strayCodeunit false).diagnostics,
      diagnostic.ruleId ≠ "CIG9999") ∧
    ((Dispatch.run (Catalog.rules (.fixed none)) "" strayCodeunit false).diagnostics.map
      (·.ruleId)) = ["CIG0000", "CIG0002"] := by
  have accepted : strayCodeunit.check = .ok () := by decide +kernel
  have faultless := run_faultless accepted [
    .projectStructure ProjectStructure.defaultOrganization (.fixed none), .missingCaption,
    .dataClassification (.fixed none), .varParameter,
    .setLoadFields SetLoadFields.defaultThreshold, .calcFields, .textBuilder, .sourceExpression] ""
  exact ⟨accepted, faultless.2.1, by decide +kernel⟩

end ModelLint.Rules
