import ModelLint.Proofs.Model.Ancestry

namespace ModelLint.Model

/-! Walks down and walks up see one and the same ordered tree.

What is below a node is found along child links, what is around it along parent links. In an
accepted model both read off the tree that its walk lists. -/

variable {model : Model} {tree : Tree} {id : NodeId} {node : Node}

/-- Only the root has no parent. -/
theorem WellFormed.eq_root_of_orphan (wellFormed : model.WellFormed)
    (found : model.nodes[id]? = some node) (orphan : node.parent = none) : id = model.root := by
  rcases (wellFormed.reached id (lt_size_of_found found)).cases_tail with same | ⟨parent, _, lists⟩
  · exact same
  · obtain ⟨again, foundAgain, link⟩ := wellFormed.linked parent id lists
    obtain rfl : node = again := by simpa [found] using foundAgain
    rw [orphan] at link
    contradiction

namespace Line

variable {line : List NodeId}

/-- The way up from a node ends at the root. -/
theorem getLast?_self (wellFormed : model.WellFormed) (above : model.Line id line) :
    (id :: line).getLast? = some model.root := by
  induction above with
  | root found orphan => simp [wellFormed.eq_root_of_orphan found orphan]
  | @up id parent node line found link above ih => simpa using ih

theorem eq_nil_iff (wellFormed : model.WellFormed) (above : model.Line id line) :
    line = [] ↔ id = model.root := by
  cases above with
  | root found orphan => simp [wellFormed.eq_root_of_orphan found orphan]
  | up found link above =>
      simp only [reduceCtorEq, false_iff]
      intro same
      obtain ⟨root, rootFound, orphan⟩ := wellFormed.rooted
      rw [same, rootFound] at found
      cases found
      rw [orphan] at link
      contradiction

end Line

/-- What is below a node of a tree stands right behind it in the pre-order. -/
theorem WellFormed.descendants_block (wellFormed : model.WellFormed) (isTree : model.IsTree tree)
    (inside : id < model.nodes.size) :
    ∃ before below after, model.descendants id = .ok below ∧
      model.descendantsAndSelf id = .ok (id :: below) ∧
      tree.preorder = before ++ (id :: below) ++ after := by
  obtain ⟨inner, fits, rfl, before, after, split⟩ :=
    isTree.1.subtree ((isTree.2.2.2 id).mpr inside)
  have whole : inner.preorder = inner.id :: Tree.nodes inner.branches := by
    cases inner
    exact Tree.preorder_node _ _ _
  refine ⟨before, Tree.nodes inner.branches, after, wellFormed.descendants_eq_ok fits, ?_, ?_⟩
  · rw [← whole]
    exact wellFormed.descendantsAndSelf_eq_ok fits
  · rw [← whole, split]

theorem WellFormed.mem_descendants_iff (wellFormed : model.WellFormed) {inner outer : NodeId}
    {below : List NodeId} (inside : outer < model.nodes.size)
    (answered : model.descendants outer = .ok below) :
    inner ∈ below ↔ model.Encloses outer inner := by
  obtain ⟨tree, fits, rfl⟩ := wellFormed.treeAt inside
  rw [wellFormed.descendants_eq_ok fits] at answered
  cases answered
  exact fits.mem_nodes_branches_iff

theorem WellFormed.mem_ancestors_iff (wellFormed : model.WellFormed) {inner outer : NodeId}
    {above : List NodeId} (inside : inner < model.nodes.size)
    (answered : model.ancestors inner = .ok above) :
    outer ∈ above ↔ model.Encloses outer inner := by
  obtain ⟨line, isLine⟩ := wellFormed.line inside
  rw [isLine.ancestors_eq_ok wellFormed] at answered
  cases answered
  exact isLine.mem_iff wellFormed

/-- The questions about an accepted model agree with one ordered tree. Its walk is the
pre-order of the tree, with every node once. What is below a node is the block behind it in the
walk; what is around it is the line of its parents up to the root; and each of two nodes is
below the other exactly if the other is around it. -/
theorem queries_agree_with_tree (accepted : model.check = .ok ()) :
    ∃ tree : Tree, tree.Fits model ∧ tree.id = model.root ∧
      model.walk = .ok tree.preorder ∧ tree.preorder.Nodup ∧
      (∀ id, id ∈ tree.preorder ↔ id < model.nodes.size) ∧
      (∀ id < model.nodes.size, ∃ before below after,
        model.descendants id = .ok below ∧ model.descendantsAndSelf id = .ok (id :: below) ∧
        tree.preorder = before ++ (id :: below) ++ after) ∧
      (∀ id < model.nodes.size, ∃ above,
        model.ancestors id = .ok above ∧ model.ancestorsAndSelf id = .ok (id :: above) ∧
        model.Line id above ∧ above.Nodup ∧ (above = [] ↔ id = model.root) ∧
        (id ≠ model.root → above.getLast? = some model.root)) ∧
      ∀ outer < model.nodes.size, ∀ inner < model.nodes.size, ∀ below above,
        model.descendants outer = .ok below → model.ancestors inner = .ok above →
          (inner ∈ below ↔ outer ∈ above) := by
  have wellFormed := wellFormed_of_check accepted
  obtain ⟨tree, isTree⟩ := wellFormed.isTree
  refine ⟨tree, isTree.1, isTree.2.1, wellFormed.walk_eq_ok isTree, isTree.2.2.1, isTree.2.2.2,
    fun id inside => wellFormed.descendants_block isTree inside, fun id inside => ?_, ?_⟩
  · obtain ⟨line, above⟩ := wellFormed.line inside
    refine ⟨line, above.ancestors_eq_ok wellFormed, above.ancestorsAndSelf_eq_ok wellFormed,
      above, (above.nodup_self wellFormed).of_cons, above.eq_nil_iff wellFormed, fun inner => ?_⟩
    have last := above.getLast?_self wellFormed
    cases line with
    | nil => exact absurd ((above.eq_nil_iff wellFormed).mp rfl) inner
    | cons parent rest => simpa using last
  · intro outer outerInside inner innerInside below above down up
    rw [wellFormed.mem_descendants_iff outerInside down,
      wellFormed.mem_ancestors_iff innerInside up]

/-- A procedure and a variable, with ids that do not follow the order of the tree. -/
def shuffled : Model where
  filePath := "Shuffled.al"
  root := 2
  nodes := #[
    { kind := .block, parent := some 3 },
    { kind := .variableDeclaration, parent := some 2 },
    { kind := .compilationUnit, children := [3, 1] },
    { kind := .procedure, parent := some 2, children := [4, 0] },
    { kind := .parameter, parent := some 3 }]

theorem queries_agree_with_tree_shuffled :
    ∃ tree : Tree, tree.Fits shuffled ∧ tree.preorder = [2, 3, 4, 0, 1] ∧
      (∃ before after, tree.preorder = before ++ [3, 4, 0] ++ after) ∧
      (0 ∈ [4, 0] ↔ 3 ∈ [3, 2]) := by
  have accepted : shuffled.check = .ok () := by decide +kernel
  have walked : shuffled.walk = .ok [2, 3, 4, 0, 1] := by decide +kernel
  have down : shuffled.descendants 3 = .ok [4, 0] := by decide +kernel
  have up : shuffled.ancestors 0 = .ok [3, 2] := by decide +kernel
  obtain ⟨tree, fits, _, listed, _, _, blocks, _, dual⟩ := queries_agree_with_tree accepted
  obtain ⟨before, below, after, answered, _, split⟩ := blocks 3 (by decide)
  obtain rfl : below = [4, 0] := by simpa [down] using answered.symm
  exact ⟨tree, fits, by simpa [walked] using listed.symm, ⟨before, after, split⟩,
    dual 3 (by decide) 0 (by decide) _ _ down up⟩

end ModelLint.Model
