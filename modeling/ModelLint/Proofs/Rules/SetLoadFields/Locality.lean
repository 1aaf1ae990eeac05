import ModelLint.Proofs.Model.Traversal
import ModelLint.Proofs.Rules.SetLoadFields.Likeness
import ModelLint.Proofs.Rules.Success

namespace ModelLint

/-! The findings at a procedure depend on its body alone.

Two models that share the body of a procedure may differ in all else: in the other procedures, in
the statements around, in the path and in the comments. Searches around a node end at the body, and
neither a choice of fields nor the use of one is kept from one procedure to the next. -/

namespace Model

/-- Two models have the same nodes from a body downwards. The body itself may have another
parent. -/
structure Shares (left right : Model) (body : NodeId) : Prop where
  top : ∃ node parent, left.nodes[body]? = some node ∧
    right.nodes[body]? = some { node with parent := parent }
  below : ∀ id, left.Encloses body id → left.nodes[id]? = right.nodes[id]?

variable {left right : Model} {body : NodeId}

theorem Shares.alike (shares : left.Shares right body) (formed : left.WellFormed)
    (otherFormed : right.WellFormed) (symbols : left.symbols = right.symbols) :
    left.Alike right body where
  formed := formed
  otherFormed := otherFormed
  symbols := symbols
  nodes id reached := by
    obtain ⟨top, parent, topFound, otherFound⟩ := shares.top
    rcases Relation.reflTransGen_iff_eq_or_transGen.mp reached with rfl | encloses
    · exact ⟨top, _, topFound, otherFound, rfl, rfl, rfl, .refl _, fun _ => rfl⟩
    · obtain ⟨node, found⟩ := found_of_lt_size
        (lt_size_of_reaches formed (lt_size_of_found topFound) reached)
      exact ⟨node, node, found, shares.below id encloses ▸ found, rfl, rfl, rfl, .refl _,
        fun _ => rfl⟩

/-- Both models evaluate the body in the same order. -/
theorem Shares.trees (shares : left.Shares right body) (formed : left.WellFormed) :
    ∃ tree other : Tree, tree.Fits left ∧ tree.id = body ∧ other.Fits right ∧ other.id = body ∧
      tree.evaluated = other.evaluated := by
  obtain ⟨top, parent, topFound, otherFound⟩ := shares.top
  obtain ⟨⟨id, content, branches⟩, fits, rfl⟩ := formed.treeAt (lt_size_of_found topFound)
  obtain rfl : content = top := Option.some_inj.mp (fits.found.symm.trans topFound)
  refine ⟨_, .node id { content with parent := parent } branches, fits, rfl,
    .node otherFound fits.listed fun inner member => ?_, rfl, Tree.evaluated_congr rfl⟩
  refine (fits.branches inner member).transfer fun place within => shares.below place ?_
  exact fits.mem_nodes_branches_iff.mp (Tree.mem_nodes.mpr ⟨inner, member, within⟩)

end Model

namespace Rules.SetLoadFields

variable {model left right : Model} {procedure other body : NodeId}

theorem fetches_eq_of_shares (shares : left.Shares right body) (alike : left.Alike right body)
    (isBlock : left.Has (·.kind = .block) body = true) (threshold : Nat) :
    fetches left threshold body = fetches right threshold body := by
  obtain ⟨before, after, isBefore, isAfter, sameExempt⟩ := exempts_alike alike threshold
  obtain ⟨tree, other, fits, rfl, otherFits, sameId, sameOrder⟩ := shares.trees alike.formed
  have sameEvents : events left tree.id left.nodes.size tree.id =
      events right tree.id right.nodes.size tree.id := by
    calc events left tree.id left.nodes.size tree.id
        = Model.gather (eventsAt left tree.id) tree.evaluated :=
          events_eq_gather fits (alike.formed.preorder_length_le fits)
      _ = Model.gather (eventsAt right tree.id) tree.evaluated :=
          Model.gather_congr fun id member =>
            eventsAt_alike alike isBlock ((Tree.mem_evaluated_iff fits).mp member)
      _ = events right tree.id right.nodes.size tree.id := by
          rw [sameOrder, ← events_eq_gather otherFits
            (alike.otherFormed.preorder_length_le otherFits), sameId]
  simp only [fetches, isBefore, isAfter, sameEvents, funext sameExempt, bind, Except.bind]

/-- What is fetched is fetched in the body. -/
theorem call_reached (wellFormed : model.WellFormed) {threshold : Nat} {found : List Fetch}
    (isBlock : model.Has (·.kind = .block) body = true)
    (fetched : fetches model threshold body = .ok found) :
    ∀ fetch ∈ found, model.Reaches body fetch.call := by
  obtain ⟨block, blockFound, _⟩ := Model.has_iff.mp isBlock
  obtain ⟨tree, fits, rfl⟩ := wellFormed.treeAt (Model.lt_size_of_found blockFound)
  obtain ⟨again, exempt, answered, _, reports⟩ := fetches_reports wellFormed fits isBlock threshold
  obtain rfl : found = again := by simpa [fetched] using answered
  intro fetch member
  obtain ⟨id, inOrder, _, _, _, ⟨rfl, _⟩, _⟩ := reports.exists_of_mem member
  exact (Tree.mem_evaluated_iff fits).mp inOrder

/-- At a procedure whose object is not obsolete, the body is looked at and nothing else. -/
theorem check_eq_gather (wellFormed : model.WellFormed)
    (hasBody : model.HasBody procedure body) (current : ¬ model.InObsoleteObject procedure)
    (threshold : Nat) :
    check threshold model procedure =
      fetches model threshold body >>= Model.gather (finding model) := by
  have ⟨_, found, _⟩ := hasBody
  have inside := Model.lt_size_of_found found
  simp only [check, (Model.inObsoleteObject_decides wellFormed inside).eq_false current,
    (Model.body_finds wellFormed inside).eq_some hasBody, bind, Except.bind, Bool.false_eq_true,
    if_false]

theorem check_of_obsolete (wellFormed : model.WellFormed)
    (hasBody : model.HasBody procedure body) (obsolete : model.InObsoleteObject procedure)
    (threshold : Nat) : check threshold model procedure = .ok [] := by
  have ⟨_, found, _⟩ := hasBody
  obtain ⟨answer, answered, right⟩ :=
    Model.inObsoleteObject_decides wellFormed (Model.lt_size_of_found found)
  obtain rfl := right.mpr obsolete
  simp only [check, answered, bind, Except.bind, if_true, pure, Except.pure]

/-- The findings at two procedures are the same if the procedures have one body and if the objects
around them are both obsolete or both not, whatever else is in the two models. -/
theorem onNode_depends_on_body (accepted : left.check = .ok ())
    (otherAccepted : right.check = .ok ()) (symbols : left.symbols = right.symbols)
    (hasBody : left.HasBody procedure body) (otherHasBody : right.HasBody other body)
    (shares : left.Shares right body)
    (obsolete : left.InObsoleteObject procedure ↔ right.InObsoleteObject other)
    (threshold : Nat) (path otherPath : String) (cancelled otherCancelled : Bool) :
    ∃ findings,
      (rule threshold).onNode ⟨left, path, cancelled⟩ procedure = { findings := findings } ∧
      (rule threshold).onNode ⟨right, otherPath, otherCancelled⟩ other =
        { findings := findings } := by
  have formed := Model.wellFormed_of_check accepted
  have otherFormed := Model.wellFormed_of_check otherAccepted
  have alike := shares.alike formed otherFormed symbols
  have same : check threshold left procedure = check threshold right other := by
    by_cases isObsolete : left.InObsoleteObject procedure
    · rw [check_of_obsolete formed hasBody isObsolete,
        check_of_obsolete otherFormed otherHasBody (obsolete.mp isObsolete)]
    · rw [check_eq_gather formed hasBody isObsolete,
        check_eq_gather otherFormed otherHasBody (mt obsolete.mpr isObsolete),
        ← fetches_eq_of_shares shares alike hasBody.isBlock]
      cases fetched : fetches left threshold body with
      | error reason => rfl
      | ok found =>
          exact Model.gather_congr fun fetch member =>
            finding_alike alike (call_reached formed hasBody.isBlock fetched fetch member)
  have ⟨_, found, _⟩ := hasBody
  obtain ⟨findings, answered⟩ :=
    check_succeeds formed threshold (Model.lt_size_of_found found)
  refine ⟨findings, ?_, ?_⟩
  · simp only [rule, answered, Outcome.ofCheck]
  · simp only [rule, ← same, answered, Outcome.ofCheck]

/-- A procedure with a fetch of a global record and a fetch without a receiver:
`Customer.FindSet(); Get()`. -/
def alone : Model where
  filePath := "Alone.al"
  nodes := #[
    { kind := .compilationUnit, children := [1] },
    { kind := .procedure, parent := some 0, children := [2] },
    { kind := .block, parent := some 1, children := [3, 7] },
    { kind := .invocation, span := ⟨3, 5, 40, 18⟩, parent := some 2, children := [4] },
    { kind := .memberAccess, parent := some 3, children := [5, 6] },
    { kind := .identifier, parent := some 4, symbol := some 0 },
    { kind := .identifier, parent := some 4, symbol := some 1 },
    { kind := .invocation, span := ⟨4, 5, 60, 5⟩, parent := some 2, children := [8] },
    { kind := .identifier, parent := some 7, symbol := some 2 }]
  symbols := #[
    { name := "Customer", kind := .globalVariable, type := .record "Customer" },
    .builtinMethod "FindSet",
    .builtinMethod "Get",
    .builtinMethod "SetLoadFields"]

/-- The body of `alone` in a procedure inside `with Customer`, behind a procedure that chooses the
fields of the same record. -/
def surrounded : Model where
  filePath := "Surrounded.al"
  nodes := (alone.nodes.setIfInBounds 0 { kind := .compilationUnit, children := [1, 9] }
    |>.setIfInBounds 1 { kind := .procedure, parent := some 0, children := [12] }
    |>.setIfInBounds 2 { kind := .block, parent := some 10, children := [3, 7] }) ++ #[
    { kind := .withStatement, parent := some 0, children := [11, 10] },
    { kind := .procedure, parent := some 9, children := [2], comments := ["// Get it"] },
    { kind := .identifier, parent := some 9, symbol := some 0 },
    { kind := .block, parent := some 1, children := [13] },
    { kind := .invocation, parent := some 12, children := [14] },
    { kind := .memberAccess, parent := some 13, children := [15, 16] },
    { kind := .identifier, parent := some 14, symbol := some 0 },
    { kind := .identifier, parent := some 14, symbol := some 3 }]
  symbols := alone.symbols

theorem onNode_depends_on_body_surrounded :
    (rule 10).onNode ⟨surrounded, "Surrounded.al", true⟩ 10 = { findings := [
      { place := .span ⟨3, 5, 40, 18⟩, args := ["Customer", "FindSet"], anchor := some 3 }] } := by
  have accepted : alone.check = .ok () := by decide +kernel
  have otherAccepted : surrounded.check = .ok () := by decide +kernel
  have formed := Model.wellFormed_of_check accepted
  have otherFormed := Model.wellFormed_of_check otherAccepted
  have current : ¬ alone.InObsoleteObject 1 :=
    (Model.inObsoleteObject_decides formed (by decide)).not_of_eq_false (by decide +kernel)
  have otherCurrent : ¬ surrounded.InObsoleteObject 10 :=
    (Model.inObsoleteObject_decides otherFormed (by decide)).not_of_eq_false (by decide +kernel)
  have listed : alone.descendants 2 = .ok [3, 4, 5, 6, 7, 8] := by decide +kernel
  have equal : ∀ id ∈ [3, 4, 5, 6, 7, 8], alone.nodes[id]? = surrounded.nodes[id]? := by decide
  have shares : alone.Shares surrounded 2 :=
    ⟨⟨_, some 10, rfl, rfl⟩, fun id encloses =>
      equal id ((formed.mem_descendants_iff (by decide) listed).mpr encloses)⟩
  obtain ⟨findings, answered, otherAnswered⟩ :=
    onNode_depends_on_body accepted otherAccepted rfl
      (⟨_, rfl, by decide⟩ : alone.HasBody 1 2) (⟨_, rfl, by decide⟩ : surrounded.HasBody 10 2)
      shares (iff_of_false current otherCurrent) 10 "Alone.al" "Surrounded.al" false true
  have computed : (rule 10).onNode ⟨alone, "Alone.al", false⟩ 1 = { findings := [
      { place := .span ⟨3, 5, 40, 18⟩, args := ["Customer", "FindSet"], anchor := some 3 }] } := by
    decide +kernel
  rw [otherAnswered, ← answered, computed]

end Rules.SetLoadFields

end ModelLint
