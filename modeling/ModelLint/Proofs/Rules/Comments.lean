import ModelLint.Proofs.Model.Comments
import ModelLint.Proofs.Rules.Faultless

namespace ModelLint.Rules

/-! Runs over models without their comments.

No rule but the one about parameters reads comments, and neither does the run that calls the
rules. -/

variable (model : Model) (id : NodeId)

theorem CalcFields.check_bare : check model.bare id = check model id := by
  simp [check]

theorem MissingCaption.check_bare (id : SymbolId) : check model.bare id = check model id := by
  simp [check, isInTable]

theorem DataClassification.propertyNode_bare (symbol : Symbol) :
    propertyNode model.bare symbol = propertyNode model symbol := by
  simp only [propertyNode, Model.children_bare, Model.findNode_bare]
  rfl

theorem DataClassification.check_bare (settings : SettingsSource) (path : String)
    (cancelled : Bool) (id : SymbolId) :
    check settings ⟨model.bare, path, cancelled⟩ id =
      check settings ⟨model, path, cancelled⟩ id := by
  simp [check, propertyNode_bare]

theorem TextBuilder.loopFirst_bare (ids : List NodeId) :
    loopFirst model.bare ids = loopFirst model ids := by
  induction ids with
  | nil => rfl
  | cons id rest ih => simp [loopFirst, ih]

theorem TextBuilder.extendedText_bare (node : Node) :
    extendedText model.bare node.bare = extendedText model node := by
  simp only [extendedText, Model.identifierSymbol_bare, Model.symbol_bare]
  rfl

theorem TextBuilder.check_bare : check model.bare id = check model id := by
  simp [check, extendedText_bare, loopFirst_bare]

theorem ProjectStructure.hasSubscriber_bare :
    hasSubscriber model.bare id = hasSubscriber model id := by
  simp only [hasSubscriber, Model.descendants_bare, Model.findNode_bare]
  rfl

theorem ProjectStructure.namespaceOf_bare : namespaceOf model.bare = namespaceOf model := by
  simp [namespaceOf]

theorem ProjectStructure.check_bare (organization : String) (settings : SettingsSource)
    (path : String) (cancelled : Bool) (kind : ObjectKind) :
    check organization settings ⟨model.bare, path, cancelled⟩ id kind =
      check organization settings ⟨model, path, cancelled⟩ id kind := by
  simp [check, hasSubscriber_bare, namespaceOf_bare]

namespace SourceExpression

theorem assignedAt_bare (globals : List SymbolId) :
    assignedAt model.bare globals = assignedAt model globals := by
  funext id
  simp [assignedAt]

theorem calledAt_bare (object : SymbolId) : calledAt model.bare object = calledAt model object := by
  funext id
  simp [calledAt]

theorem assignedFrom_bare (object : SymbolId) (globals : List SymbolId) (steps : Nat)
    (met : List SymbolId) (pending : List NodeId) :
    assignedFrom model.bare object globals steps met pending =
      assignedFrom model object globals steps met pending := by
  induction steps generalizing met pending with
  | zero => cases pending <;> rfl
  | succ steps ih =>
      cases pending with
      | nil => rfl
      | cons block rest => simp [assignedFrom, assignedAt_bare, calledAt_bare, ih]

theorem firstReader_bare (assigned : List SymbolId) (ids : List NodeId) :
    firstReader model.bare assigned ids = firstReader model assigned ids := by
  induction ids with
  | nil => rfl
  | cons id rest ih => simp [firstReader, ih]

theorem fieldFinding_bare (assigned : List SymbolId) :
    fieldFinding model.bare assigned = fieldFinding model assigned := by
  funext id
  simp [fieldFinding, firstReader_bare]

theorem check_bare : check model.bare id = check model id := by
  simp only [check, Model.node_bare_bind, Model.enclosingObject_bare, Model.kind_bare,
    Model.declaresObsolete_bare, Model.membersOf_bare, Model.body_bare, assignedGlobals,
    Model.bare_symbols, assignedFrom_bare, Model.descendants_bare, fieldFinding_bare]
  rfl

end SourceExpression

namespace SetLoadFields

theorem trackedRecord_bare : trackedRecord model.bare id = trackedRecord model id := by
  simp [trackedRecord]

theorem receiver_bare (body : NodeId) (call : Model.Call) :
    receiver model.bare body id call = receiver model body id call := by
  simp [receiver]

theorem trackedReceiver_bare (expression : Option NodeId) :
    trackedReceiver model.bare expression = trackedReceiver model expression := by
  cases expression <;> simp [trackedReceiver, trackedRecord_bare]

theorem transferredAt_bare (body : NodeId) :
    transferredAt model.bare body = transferredAt model body := by
  funext id
  simp only [transferredAt, Model.node_bare_bind, Model.builtinCall_bare, receiver_bare,
    trackedReceiver_bare, trackedRecord_bare]
  rfl

theorem fieldSymbol_bare : fieldSymbol model.bare id = fieldSymbol model id := by
  simp [fieldSymbol]

theorem isMemberName_bare : isMemberName model.bare id = isMemberName model id := by
  simp only [isMemberName, Model.parent_bare, Model.node_bare_bind]
  rfl

theorem fieldUseAt_bare (body : NodeId) :
    fieldUseAt model.bare body = fieldUseAt model body := by
  funext id
  simp only [fieldUseAt, Model.node_bare_bind, trackedRecord_bare, fieldSymbol_bare,
    isMemberName_bare, Model.withTarget_bare, trackedReceiver_bare]
  rfl

theorem usage_bare (body : NodeId) : usage model.bare body = usage model body := by
  simp [usage, transferredAt_bare, fieldUseAt_bare]

theorem callEvent_bare (body : NodeId) :
    callEvent model.bare body id = callEvent model body id := by
  simp [callEvent, receiver_bare, trackedReceiver_bare]

theorem assignmentEvent_bare : assignmentEvent model.bare id = assignmentEvent model id := by
  simp [assignmentEvent, trackedRecord_bare]

theorem events_bare (body : NodeId) (depth : Nat) :
    events model.bare body depth id = events model body depth id := by
  induction depth generalizing id with
  | zero => rfl
  | succ depth ih =>
      simp only [events, Model.node_bare_bind, funext ih, assignmentEvent_bare, callEvent_bare]
      rfl

theorem finding_bare : finding model.bare = finding model := by
  funext fetch
  simp [finding]

theorem check_bare (threshold : Nat) :
    check threshold model.bare id = check threshold model id := by
  simp [check, fetches, usage_bare, events_bare, finding_bare]

end SetLoadFields

/-- What a rule says does not depend on comments, unless it is the rule that reads them. -/
theorem Builtin.outcome_bare {builtin : Builtin} (blind : builtin ≠ .varParameter)
    (sight : Dispatch.Sight) (path : String) (cancelled : Bool) :
    sight.outcome builtin.rule ⟨model.bare, path, cancelled⟩ =
      sight.outcome builtin.rule ⟨model, path, cancelled⟩ := by
  cases sight with
  | node id =>
      cases builtin with
      | projectStructure organization settings =>
          have sameKind : (model.bare.nodes[id]?).bind (·.kind.objectKind?) =
              (model.nodes[id]?).bind (·.kind.objectKind?) := by
            cases found : model.nodes[id]? <;> simp [found]
          simp only [Dispatch.Sight.outcome, rule, ProjectStructure.rule, sameKind,
            ProjectStructure.check_bare]
      | varParameter => contradiction
      | missingCaption => rfl
      | dataClassification settings => rfl
      | setLoadFields threshold =>
          exact congrArg Outcome.ofCheck (SetLoadFields.check_bare model id threshold)
      | calcFields => exact congrArg Outcome.ofCheck (CalcFields.check_bare model id)
      | textBuilder => exact congrArg Outcome.ofCheck (TextBuilder.check_bare model id)
      | sourceExpression => exact congrArg Outcome.ofCheck (SourceExpression.check_bare model id)
  | symbol id =>
      cases builtin with
      | missingCaption => exact congrArg Outcome.ofCheck (MissingCaption.check_bare model id)
      | dataClassification settings =>
          exact congrArg Outcome.ofCheck
            (DataClassification.check_bare model settings path cancelled id)
      | _ => rfl

/-- One of the rules there are, and none that reads comments. -/
def Blind (rule : Rule) : Prop :=
  ∃ builtin : Builtin, builtin ≠ .varParameter ∧ rule = builtin.rule

open Dispatch (Sight emission emissions asked)

variable {root : String} {rules : List Rule}

theorem interest?_bare (sight : Sight) : sight.interest? model.bare = sight.interest? model := by
  cases sight with
  | node id => cases found : model.nodes[id]? <;> simp [Sight.interest?, found]
  | symbol id => rfl

theorem placeOf_bare (anchor : Option NodeId) :
    Dispatch.placeOf model.bare anchor = Dispatch.placeOf model anchor := by
  cases anchor with
  | none => rfl
  | some id => cases found : model.nodes[id]? <;> simp [Dispatch.placeOf, found]

theorem emission_bare {rule : Rule} (blind : Blind rule) (sight : Sight) :
    emission root model.bare sight rule = emission root model sight rule := by
  obtain ⟨builtin, unread, rfl⟩ := blind
  have sameAnchor : sight.anchor model.bare = sight.anchor model := by cases sight <;> rfl
  simp only [emission, Model.bare_filePath, Builtin.outcome_bare model unread, sameAnchor,
    placeOf_bare]

theorem run_bare (wellFormed : model.WellFormed) (blind : ∀ rule ∈ rules, Blind rule) :
    Dispatch.run rules root model.bare false = Dispatch.run rules root model false := by
  have patient (any : Model) : ∀ rule ∈ rules, Dispatch.Patient root any rule := by
    intro rule member
    obtain ⟨builtin, _, rfl⟩ := blind rule member
    exact builtin.patient root
  refine Dispatch.run_congr ((Model.wellFormed_bare_iff model).mpr wellFormed) wellFormed
    (Model.walk_bare model) rfl (patient _) (patient _) fun sight => ?_
  have sameAsked : asked rules model.bare sight = asked rules model sight := by
    simp only [asked, interest?_bare]
  rw [emissions, emissions, sameAsked]
  apply List.flatMap_congr
  intro rule isAsked
  exact emission_bare model (blind rule (List.mem_of_mem_filter isAsked)) sight

end ModelLint.Rules
