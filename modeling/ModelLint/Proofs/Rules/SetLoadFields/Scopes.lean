import ModelLint.Proofs.Rules.SetLoadFields.History

namespace ModelLint.Rules.SetLoadFields

/-! Which `with` statement a name without a receiver belongs to.

The first child of a `with` statement is its target, and the others are the statements in which
names are taken for members of the target. The rule looks for the nearest `with` statement around
a name and does not ask in which of its children the name stands. A name in a target is therefore
taken for a member of that same target, and not for one of the target of the `with` statement
further out. -/

open Fallible

/-- A node lies in the statements of a `with` statement below a body. -/
def InScope (model : Model) (body id holder : NodeId) : Prop :=
  model.Has (·.kind = .withStatement) holder = true ∧ model.Encloses body holder ∧
    ∃ position statement, model.ChildAt holder (position + 1) statement ∧
      model.Reaches statement id

/-- The target of the innermost `with` statement in whose statements a node lies. -/
def ScopeTarget (model : Model) (body id target : NodeId) : Prop :=
  ∃ holder, model.Innermost (InScope model body id) holder ∧ model.ChildAt holder 0 target

variable {model : Model} {body id target : NodeId}

theorem InScope.encloses {holder : NodeId} (inScope : InScope model body id holder) :
    model.Encloses holder id := by
  obtain ⟨_, _, _, _, childAt, reached⟩ := inScope
  exact .head' childAt.lists reached

/-- The nearest `with` statement around a node has it in its statements unless it has it in its
target. -/
theorem inScope_of_nearest {holder : NodeId}
    (nearest : model.EnclosingWith body id holder) (first : model.ChildAt holder 0 target)
    (outside : ¬ model.Reaches target id) : InScope model body id holder := by
  obtain ⟨isWith, inBody, around⟩ := nearest.1
  obtain ⟨child, ⟨node, found, listed⟩, reached⟩ := Relation.TransGen.head'_iff.mp around
  obtain ⟨position, listedAt⟩ := List.mem_iff_getElem?.mp listed
  cases position with
  | zero =>
      obtain ⟨again, foundAgain, head⟩ := first
      obtain rfl : node = again := by simpa [found] using foundAgain
      obtain rfl : child = target := by simpa [listedAt] using head
      exact absurd reached outside
  | succ position => exact ⟨isWith, inBody, position, child, ⟨node, found, listedAt⟩, reached⟩

theorem not_inScope_of_target (wellFormed : model.WellFormed) {holder : NodeId}
    (first : model.ChildAt holder 0 target) (inTarget : model.Reaches target id) :
    ¬ InScope model body id holder := by
  intro inScope
  obtain ⟨_, _, position, statement, childAt, reached⟩ := inScope
  obtain rfl := Model.eq_of_siblings wellFormed first.lists childAt.lists inTarget reached
  obtain ⟨node, found, head⟩ := first
  obtain ⟨again, foundAgain, later⟩ := childAt
  obtain rfl : node = again := by simpa [found] using foundAgain
  have bound := (List.getElem?_eq_some_iff.mp head).1
  have same := (List.getElem?_inj bound (wellFormed.distinct _ _ found)).mp (head.trans later.symm)
  omega

/-- Where the rule finds a target, it is that of the scope exactly if the node does not stand in
the target itself. -/
theorem scopeTarget_iff (wellFormed : model.WellFormed)
    (given : model.WithTarget body id target) :
    ScopeTarget model body id target ↔ ¬ model.Reaches target id := by
  obtain ⟨holder, node, nearest, found, head⟩ := given
  have first : model.ChildAt holder 0 target := ⟨node, found, List.head?_eq_getElem? ▸ head⟩
  constructor
  · intro scope inTarget
    obtain ⟨other, innermost, otherFirst⟩ := scope
    obtain rfl := Model.Lists.unique wellFormed first.lists otherFirst.lists
    exact not_inScope_of_target wellFormed first inTarget innermost.1
  · intro outside
    refine ⟨holder, ⟨inScope_of_nearest nearest first outside, fun other inScope => ?_⟩, first⟩
    exact nearest.2 other ⟨inScope.1, inScope.2.1, inScope.encloses⟩

theorem withTarget_exists (wellFormed : model.WellFormed) (inside : id < model.nodes.size)
    (scope : ScopeTarget model body id target) : ∃ nearest, model.WithTarget body id nearest := by
  obtain ⟨outer, ⟨inScope, _⟩, _⟩ := scope
  obtain ⟨holder, nearest⟩ :=
    Model.enclosingWith_exists wellFormed inScope.1 inScope.2.1 inScope.encloses inside
  obtain ⟨child, ⟨node, found, listed⟩, _⟩ := Relation.TransGen.head'_iff.mp nearest.1.2.2
  obtain ⟨first, rest, split⟩ := List.exists_cons_of_ne_nil (List.ne_nil_of_mem listed)
  exact ⟨first, holder, node, nearest, found, by rw [split, List.head?_cons]⟩

/-- The record that the rule sees behind a name without a receiver, in the body of a procedure of
an accepted model: that of the target of the nearest `with` statement around the name, for calls
and for fields alike. It is the target of the scope in which the name stands, except for a name
in the target itself. -/
theorem receivers_of_nearest (accepted : model.check = .ok ()) {procedure : NodeId}
    (hasBody : model.HasBody procedure body) (encloses : model.Encloses body id) :
    (∀ call method, Invokes model id call method → call.receiver = none →
      Finds (do trackedReceiver model (← receiver model body id call)) fun record =>
        ∃ target, model.WithTarget body id target ∧ Tracks model target record) ∧
    (∀ field, model.Has (·.kind = .identifier) id = true → ¬ IsMember model id →
      RefersToField model id field →
      Collects (fieldUseAt model body id) fun use =>
        use.2 = field ∧ ∃ target, model.WithTarget body id target ∧ Tracks model target use.1) ∧
    (∀ target, model.WithTarget body id target →
      (ScopeTarget model body id target ↔ ¬ model.Reaches target id)) ∧
    ∀ target, ScopeTarget model body id target → ∃ nearest, model.WithTarget body id nearest := by
  have wellFormed := Model.wellFormed_of_check accepted
  have inside := Model.lt_size_of_reaches wellFormed (hasBody.inside wellFormed)
    encloses.to_reflTransGen
  refine ⟨fun call method invokes alone => ?_, fun field isName alone refers => ?_,
    fun target => scopeTarget_iff wellFormed, fun target => withTarget_exists wellFormed inside⟩
  · refine (receivedRecord_finds wellFormed encloses inside invokes.2.1).congr fun record => ?_
    simp [Receives, alone]
  · obtain ⟨uses, collected, exact⟩ := fieldUseAt_collects wellFormed encloses inside
    refine ⟨uses, collected, fun use => (exact use).trans ⟨fun given => ?_, fun given => ?_⟩⟩
    · cases given with
      | access isAccess =>
          obtain ⟨node, found, isIdentifier⟩ := Model.has_iff.mp isName
          simp_all [Model.Has]
      | bare _ _ otherRefers scope tracks =>
          obtain ⟨node, found, refersTo⟩ := refers.1
          obtain ⟨again, foundAgain, otherTo⟩ := otherRefers.1
          obtain rfl : node = again := by simpa [found] using foundAgain
          exact ⟨by simpa [refersTo] using otherTo.symm, _, scope, tracks⟩
    · obtain ⟨record, used⟩ := use
      obtain ⟨rfl, target, scope, tracks⟩ := given
      exact .bare isName alone refers scope tracks

/-- `Get` stands once in the statements of a `with` statement and once in the target of a second
one: `with Customer do begin Get(); with Pick(Get()) do end`. -/
def nested : Model where
  filePath := "Nested.al"
  nodes := #[
    { kind := .compilationUnit, children := [1] },
    { kind := .procedure, parent := some 0, children := [2] },
    { kind := .block, parent := some 1, children := [3] },
    { kind := .withStatement, parent := some 2, children := [4, 5, 7] },
    { kind := .identifier, parent := some 3, symbol := some 0 },
    { kind := .invocation, span := ⟨3, 5, 40, 5⟩, parent := some 3, children := [6] },
    { kind := .identifier, parent := some 5, symbol := some 2 },
    { kind := .withStatement, parent := some 3, children := [8, 12] },
    { kind := .invocation, parent := some 7, children := [9, 10] },
    { kind := .identifier, parent := some 8, symbol := some 1 },
    { kind := .invocation, span := ⟨4, 15, 60, 5⟩, parent := some 8, children := [11] },
    { kind := .identifier, parent := some 10, symbol := some 2 },
    { kind := .block, parent := some 7 }]
  symbols := #[
    { name := "Customer", kind := .localVariable, type := .record "Customer" },
    { name := "Pick", kind := .method },
    .builtinMethod "Get"]

/-- The calls of `Get` in the two places. -/
theorem invokes_nested (accepted : nested.check = .ok ()) :
    Invokes nested 5 ⟨2, none⟩ (.builtinMethod "Get") ∧
      Invokes nested 10 ⟨2, none⟩ (.builtinMethod "Get") := by
  have wellFormed := Model.wellFormed_of_check accepted
  have first : nested.builtinCall 5 = .ok (some (⟨2, none⟩, .builtinMethod "Get")) := by
    decide +kernel
  have second : nested.builtinCall 10 = .ok (some (⟨2, none⟩, .builtinMethod "Get")) := by
    decide +kernel
  exact ⟨⟨by decide, (Model.builtinCall_finds wellFormed (by decide)).of_eq_some first⟩,
    by decide, (Model.builtinCall_finds wellFormed (by decide)).of_eq_some second⟩

/-- In the statements the receiver is the customer, to whom the scope belongs. -/
theorem receivers_of_nearest_nested :
    nested.WithTarget 2 5 4 ∧ Tracks nested 4 0 ∧ ¬ nested.Reaches 4 5 ∧
      ScopeTarget nested 2 5 4 := by
  have accepted : nested.check = .ok () := by decide +kernel
  have wellFormed := Model.wellFormed_of_check accepted
  have hasBody : nested.HasBody 1 2 := ⟨_, rfl, by decide⟩
  have outer : nested.Lists 2 3 := ⟨_, rfl, by decide⟩
  have inner : nested.Lists 3 5 := ⟨_, rfl, by decide⟩
  have encloses : nested.Encloses 2 5 := .tail (.single outer) inner
  have targetFinds := Model.withTarget_finds wellFormed (by decide : 5 < nested.nodes.size) encloses
  have targetFound : nested.withTarget 5 2 = .ok (some 4) := by decide +kernel
  have leaf : nested.nodes[4]? =
      some { kind := .identifier, parent := some 3, symbol := some 0 } := rfl
  have beside : ¬ nested.Reaches 4 5 := by
    intro reached
    obtain ⟨next, ⟨node, found, listed⟩, _⟩ :=
      (Relation.ReflTransGen.cases_head reached).resolve_left (by decide)
    obtain rfl := Option.some.inj (leaf.symm.trans found)
    exact List.not_mem_nil listed
  obtain ⟨calls, _, scopes, _⟩ := receivers_of_nearest accepted hasBody encloses
  have received : (do trackedReceiver nested (← receiver nested 2 5 ⟨2, none⟩)) = .ok (some 0) := by
    decide +kernel
  obtain ⟨target, isTarget, tracks⟩ :=
    (calls ⟨2, none⟩ _ (invokes_nested accepted).1 rfl).of_eq_some received
  obtain rfl : 4 = target := by
    simpa [targetFound] using targetFinds.eq_some isTarget
  exact ⟨isTarget, tracks, beside, (scopes 4 isTarget).mpr beside⟩

/-- In the target of the second `with` statement `Get` is a call on the customer, to whom the
scope belongs. The rule takes the target itself for the receiver, finds no record there and does
not report the call. -/
theorem receiver_not_scopeTarget_nested :
    nested.check = .ok () ∧ nested.HasBody 1 2 ∧ nested.Encloses 2 10 ∧
    Invokes nested 10 ⟨2, none⟩ (.builtinMethod "Get") ∧
    ScopeTarget nested 2 10 4 ∧ Tracks nested 4 0 ∧
    receiver nested 2 10 ⟨2, none⟩ = .ok (some 8) ∧
    trackedReceiver nested (some 8) = .ok none ∧
    ((rule 10).onNode ⟨nested, "Nested.al", false⟩ 1).findings.map (·.anchor) = [some 5] := by
  have accepted : nested.check = .ok () := by decide +kernel
  have wellFormed := Model.wellFormed_of_check accepted
  have outer : nested.Encloses 2 3 := .single ⟨_, rfl, by decide⟩
  have inTarget : nested.Reaches 8 10 := .single ⟨_, rfl, by decide⟩
  have inStatement : nested.Reaches 7 10 := .head ⟨_, rfl, by decide⟩ inTarget
  have inScope : InScope nested 2 10 3 :=
    ⟨by decide, outer, 1, 7, ⟨_, rfl, by decide⟩, inStatement⟩
  have only : ∀ other < 13, nested.Has (·.kind = .withStatement) other = true →
      other = 3 ∨ other = 7 := by decide
  have scope : ScopeTarget nested 2 10 4 := by
    refine ⟨3, ⟨inScope, fun other given => ?_⟩, ⟨_, rfl, by decide⟩⟩
    rcases only other given.encloses.inside given.1 with rfl | rfl
    · exact .refl
    · exact absurd given (not_inScope_of_target wellFormed ⟨_, rfl, by decide⟩ inTarget)
  refine ⟨accepted, ⟨_, rfl, by decide⟩, outer.trans inScope.encloses,
    (invokes_nested accepted).2, scope, ?_, by decide +kernel, by decide +kernel,
    by decide +kernel⟩
  exact ⟨⟨_, rfl, rfl⟩, _, rfl, by decide, by decide⟩

end ModelLint.Rules.SetLoadFields
