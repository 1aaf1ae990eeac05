import ModelLint.Proofs.Rules.SetLoadFields.Likeness

namespace ModelLint

/-! Exemptions do not depend on the order of statements.

A walk over a body lists the nodes of permuted blocks in another order at every depth. What a
block holds is the same, and the order of the children stays as it is in all other nodes, where a
position says which child is the callee, the receiver or the target. -/

namespace Model

/-- The model with the children of each node in a given order. -/
def reorder (model : Model) (order : NodeId → List NodeId) : Model :=
  { model with nodes := model.nodes.mapIdx fun id node => { node with children := order id } }

/-- The statements of blocks are put in another order, and nothing else is. -/
def MovesStatements (model : Model) (order : NodeId → List NodeId) : Prop :=
  ∀ id < model.nodes.size, ∀ node ∈ model.nodes[id]?,
    node.children.Perm (order id) ∧ (node.kind ≠ .block → node.children = order id)

variable {model : Model} {order : NodeId → List NodeId} {id : NodeId}

instance : Decidable (model.MovesStatements order) :=
  inferInstanceAs (Decidable (∀ id < model.nodes.size, ∀ node ∈ model.nodes[id]?,
    node.children.Perm (order id) ∧ (node.kind ≠ .block → node.children = order id)))

theorem reorder_found {node : Node} :
    (model.reorder order).nodes[id]? = some node ↔
      ∃ before, model.nodes[id]? = some before ∧ { before with children := order id } = node := by
  simp [reorder]

theorem MovesStatements.alike {node : Node} (moves : model.MovesStatements order)
    (found : model.nodes[id]? = some node) : node.Alike { node with children := order id } := by
  obtain ⟨reordered, children⟩ := moves id (lt_size_of_found found) node found
  exact ⟨rfl, rfl, rfl, reordered, children⟩

theorem MovesStatements.lists_iff (moves : model.MovesStatements order) {parent child : NodeId} :
    (model.reorder order).Lists parent child ↔ model.Lists parent child := by
  constructor
  · intro lists
    obtain ⟨_, reordered, member⟩ := lists
    obtain ⟨node, found, rfl⟩ := reorder_found.mp reordered
    exact ⟨node, found, (moves.alike found).reordered.mem_iff.mpr member⟩
  · intro lists
    obtain ⟨node, found, member⟩ := lists
    exact ⟨_, reorder_found.mpr ⟨node, found, rfl⟩,
      (moves.alike found).reordered.mem_iff.mp member⟩

/-- A tree remains a tree. -/
theorem WellFormed.reorder (wellFormed : model.WellFormed) (moves : model.MovesStatements order) :
    (model.reorder order).WellFormed where
  rooted := by
    obtain ⟨root, found, orphan⟩ := wellFormed.rooted
    exact ⟨_, reorder_found.mpr ⟨root, found, rfl⟩, orphan⟩
  linked parent child lists := by
    obtain ⟨node, found, link⟩ := wellFormed.linked parent child (moves.lists_iff.mp lists)
    exact ⟨_, reorder_found.mpr ⟨node, found, rfl⟩, link⟩
  distinct id node reordered := by
    obtain ⟨before, found, rfl⟩ := reorder_found.mp reordered
    exact (moves.alike found).reordered.nodup_iff.mp (wellFormed.distinct id before found)
  reached id inside := by
    have same : (model.reorder order).Lists = model.Lists := by
      funext parent child
      exact propext moves.lists_iff
    rw [Reaches, same]
    exact wellFormed.reached id (by simpa [Model.reorder] using inside)
  nodeSymbols id node reordered := by
    obtain ⟨before, found, rfl⟩ := reorder_found.mp reordered
    exact wellFormed.nodeSymbols id before found
  containers := wellFormed.containers
  declarations id symbol known declaration declares := by
    simpa [Model.reorder] using wellFormed.declarations id symbol known declaration declares

theorem WellFormed.alike_reorder (wellFormed : model.WellFormed)
    (moves : model.MovesStatements order) {body : NodeId} (inside : body < model.nodes.size) :
    model.Alike (model.reorder order) body where
  formed := wellFormed
  otherFormed := wellFormed.reorder moves
  symbols := rfl
  nodes id reached := by
    obtain ⟨node, found⟩ := found_of_lt_size (lt_size_of_reaches wellFormed inside reached)
    exact ⟨node, _, found, reorder_found.mpr ⟨node, found, rfl⟩, moves.alike found⟩

end Model

namespace Rules.SetLoadFields

/-- Putting the statements of any blocks in another order, at any depth, leaves an accepted model
accepted, and the exempt records of each body remain the same for every threshold. -/
theorem exempts_reorder {model : Model} {order : NodeId → List NodeId} {procedure body : NodeId}
    (accepted : model.check = .ok ()) (hasBody : model.HasBody procedure body)
    (moves : model.MovesStatements order) (threshold : Nat) :
    (model.reorder order).check = .ok () ∧
    ∃ before after, usage model body = .ok before ∧ usage (model.reorder order) body = .ok after ∧
      ∀ record, before.exempts threshold record = after.exempts threshold record := by
  have wellFormed := Model.wellFormed_of_check accepted
  exact ⟨Model.check_of_wellFormed (wellFormed.reorder moves),
    exempts_alike (wellFormed.alike_reorder moves (hasBody.inside wellFormed)) threshold⟩

/-- Two fields of a customer and a transfer from a vendor:
`with Customer do begin "No."; TransferFields(Vendor) end; Customer.Name`. -/
def twoFields : Model where
  filePath := "TwoFields.al"
  nodes := #[
    { kind := .compilationUnit, children := [1] },
    { kind := .procedure, parent := some 0, children := [2] },
    { kind := .block, parent := some 1, children := [3, 10] },
    { kind := .withStatement, parent := some 2, children := [4, 5] },
    { kind := .identifier, parent := some 3, symbol := some 0 },
    { kind := .block, parent := some 3, children := [6, 7] },
    { kind := .identifier, parent := some 5, symbol := some 2 },
    { kind := .invocation, parent := some 5, children := [8, 9] },
    { kind := .identifier, parent := some 7, symbol := some 4 },
    { kind := .identifier, parent := some 7, symbol := some 1 },
    { kind := .memberAccess, parent := some 2, children := [11, 12] },
    { kind := .identifier, parent := some 10, symbol := some 0 },
    { kind := .identifier, parent := some 10, symbol := some 3 }]
  symbols := #[
    { name := "Customer", kind := .localVariable, type := .record "Customer" },
    { name := "Vendor", kind := .localVariable, type := .record "Vendor" },
    { name := "No.", kind := .field },
    { name := "Name", kind := .field },
    .builtinMethod "TransferFields"]

/-- The children of the nodes of `twoFields`, with both blocks turned round. -/
def turned (id : NodeId) : List NodeId :=
  let children := (twoFields.nodes[id]?).elim [] Node.children
  if id = 2 ∨ id = 5 then children.reverse else children

theorem exempts_reorder_twoFields :
    ∃ before after, usage twoFields 2 = .ok before ∧ before.fields = [(0, 2), (0, 3)] ∧
      usage (twoFields.reorder turned) 2 = .ok after ∧ after.fields = [(0, 3), (0, 2)] ∧
      before.exempts 1 0 = true ∧
      ∀ record, before.exempts 1 record = after.exempts 1 record := by
  have moves : twoFields.MovesStatements turned := by decide +kernel
  obtain ⟨_, before, after, isBefore, isAfter, same⟩ :=
    exempts_reorder (by decide +kernel) (⟨_, rfl, by decide⟩ : twoFields.HasBody 1 2) moves 1
  have first : usage twoFields 2 = .ok ⟨[0, 1], [(0, 2), (0, 3)]⟩ := by decide +kernel
  have second : usage (twoFields.reorder turned) 2 = .ok ⟨[0, 1], [(0, 3), (0, 2)]⟩ := by
    decide +kernel
  obtain rfl : before = ⟨[0, 1], [(0, 2), (0, 3)]⟩ := by simpa [first, eq_comm] using isBefore
  obtain rfl : after = ⟨[0, 1], [(0, 3), (0, 2)]⟩ := by simpa [second, eq_comm] using isAfter
  exact ⟨_, _, isBefore, rfl, isAfter, rfl, by decide, same⟩

end Rules.SetLoadFields

end ModelLint
