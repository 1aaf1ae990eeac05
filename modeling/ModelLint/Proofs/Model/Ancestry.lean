import ModelLint.Proofs.Model.WellFormed

namespace ModelLint.Model

/-! What the questions about an accepted model answer.

Every question about a node of an accepted model has an answer, and the bound on the
steps of a walk never cuts it short. What is below a node is read off its tree; what
is around it is the line of its ancestors, nearest first. -/

variable {model : Model} {tree : Tree} {id : NodeId} {node : Node}

theorem node_eq_ok (found : model.nodes[id]? = some node) : model.node id = .ok node := by
  simp [Model.node, found]

theorem symbol_eq_ok {id : SymbolId} {symbol : Symbol} (found : model.symbols[id]? = some symbol) :
    model.symbol id = .ok symbol := by
  simp [Model.symbol, found]

theorem kind_eq_ok (found : model.nodes[id]? = some node) : model.kind id = .ok node.kind := by
  simp [kind, node_eq_ok found, bind, Except.bind, pure, Except.pure]

theorem children_eq_ok (found : model.nodes[id]? = some node) :
    model.children id = .ok node.children := by
  simp [children, node_eq_ok found, bind, Except.bind, pure, Except.pure]

theorem child?_eq_ok (found : model.nodes[id]? = some node) (position : Nat) :
    model.child? id position = .ok node.children[position]? := by
  simp [child?, children_eq_ok found, bind, Except.bind, pure, Except.pure]

theorem parent_eq_ok (found : model.nodes[id]? = some node) :
    model.parent id = .ok node.parent := by
  simp [parent, node_eq_ok found, bind, Except.bind, pure, Except.pure]

theorem resolvedId_eq_ok (found : model.nodes[id]? = some node) :
    model.resolvedId id = .ok node.symbol := by
  simp [resolvedId, node_eq_ok found, bind, Except.bind, pure, Except.pure]

/-- Whether there is a node with this id that has a property. -/
def Has (model : Model) (accepts : Node → Bool) (id : NodeId) : Bool :=
  model.nodes[id]?.any accepts

theorem has_iff {accepts : Node → Bool} :
    model.Has accepts id = true ↔ ∃ node, model.nodes[id]? = some node ∧ accepts node = true := by
  cases found : model.nodes[id]? <;> simp [Has, found]

theorem has_kind_iff (found : model.nodes[id]? = some node) {kind : NodeKind} :
    model.Has (·.kind = kind) id = true ↔ node.kind = kind := by
  simp [Has, found]

theorem findNode_eq_ok {accepts : Node → Bool} {ids : List NodeId}
    (inside : ∀ id ∈ ids, id < model.nodes.size) :
    model.findNode accepts ids = .ok (ids.find? (model.Has accepts)) := by
  induction ids with
  | nil => rfl
  | cons id rest ih =>
      obtain ⟨node, found⟩ := found_of_lt_size (inside id (by simp))
      have later := ih fun other member => inside other (List.mem_cons_of_mem _ member)
      simp only [findNode, node_eq_ok found, bind, Except.bind, later]
      by_cases accepted : accepts node = true
      · simp [accepted, Has, found, pure, Except.pure]
      · simp [accepted, Has, found]

namespace WellFormed

theorem isTree (wellFormed : model.WellFormed) : ∃ tree, model.IsTree tree := by
  obtain ⟨root, found, _⟩ := wellFormed.rooted
  exact isTree_of_checkShape (closed_of_linked wellFormed.linked) (lt_size_of_found found)
    wellFormed.checkShape

theorem treeAt (wellFormed : model.WellFormed) (inside : id < model.nodes.size) :
    ∃ tree : Tree, tree.Fits model ∧ tree.id = id := by
  obtain ⟨whole, fits, _, _, all⟩ := wellFormed.isTree
  obtain ⟨tree, treeFits, same, _⟩ := fits.subtree ((all id).mpr inside)
  exact ⟨tree, treeFits, same⟩

theorem preorder_sublist (wellFormed : model.WellFormed) (fits : tree.Fits model) :
    ∃ whole, model.IsTree whole ∧ tree.preorder.Sublist whole.preorder := by
  obtain ⟨whole, isTree⟩ := wellFormed.isTree
  have member := (isTree.2.2.2 tree.id).mpr (lt_size_of_found fits.found)
  obtain ⟨inner, innerFits, same, block⟩ := isTree.1.subtree member
  obtain rfl := innerFits.unique fits same
  exact ⟨whole, isTree, block.sublist⟩

theorem preorder_nodup (wellFormed : model.WellFormed) (fits : tree.Fits model) :
    tree.preorder.Nodup := by
  obtain ⟨whole, isTree, sublist⟩ := wellFormed.preorder_sublist fits
  exact sublist.nodup isTree.2.2.1

theorem nodes_nodup (wellFormed : model.WellFormed) (fits : tree.Fits model) :
    (Tree.nodes tree.branches).Nodup := by
  have distinct := wellFormed.preorder_nodup fits
  cases tree
  rw [Tree.preorder_node, List.nodup_cons] at distinct
  exact distinct.2

theorem preorder_length_le (wellFormed : model.WellFormed) (fits : tree.Fits model) :
    tree.preorder.length ≤ model.nodes.size := by
  obtain ⟨whole, ⟨_, _, distinct, all⟩, sublist⟩ := wellFormed.preorder_sublist fits
  exact Nat.le_trans sublist.length_le
    (length_le_size distinct fun id member => (all id).mp member)

theorem nodes_length_le (wellFormed : model.WellFormed) (fits : tree.Fits model) :
    (Tree.nodes tree.branches).length ≤ model.nodes.size := by
  have bound := wellFormed.preorder_length_le fits
  cases tree
  simp only [Tree.preorder_node, List.length_cons] at bound
  simp only [Tree.branches]
  omega

theorem descendants_eq_ok (wellFormed : model.WellFormed) (fits : tree.Fits model) :
    model.descendants tree.id = .ok (Tree.nodes tree.branches) := by
  simp only [descendants, children_eq_ok fits.found, fits.listed, bind, Except.bind]
  exact visit_eq_nodes fits.branches (wellFormed.nodes_length_le fits)

theorem descendantsAndSelf_eq_ok (wellFormed : model.WellFormed) (fits : tree.Fits model) :
    model.descendantsAndSelf tree.id = .ok tree.preorder := by
  have visited : model.visit model.nodes.size ([tree].map Tree.id) = .ok (Tree.nodes [tree]) :=
    visit_eq_nodes (by simpa using fits) (by simpa using wellFormed.preorder_length_le fits)
  simpa [descendantsAndSelf, fits.found] using visited

theorem walk_eq_ok (wellFormed : model.WellFormed) (isTree : model.IsTree tree) :
    model.walk = .ok tree.preorder := by
  rw [walk, ← isTree.2.1]
  exact wellFormed.descendantsAndSelf_eq_ok isTree.1

end WellFormed

theorem lt_size_of_reaches (wellFormed : model.WellFormed) {other : NodeId}
    (inside : id < model.nodes.size) (reached : model.Reaches id other) :
    other < model.nodes.size := by
  induction reached with
  | refl => exact inside
  | tail _ lists _ => exact closed_of_linked wellFormed.linked _ _ lists

theorem Lists.inside {parent child : NodeId} (lists : model.Lists parent child) :
    parent < model.nodes.size := by
  obtain ⟨node, found, _⟩ := lists
  exact lt_size_of_found found

theorem Encloses.inside {outer inner : NodeId} (encloses : model.Encloses outer inner) :
    outer < model.nodes.size := by
  obtain ⟨child, lists, _⟩ := Relation.TransGen.head'_iff.mp encloses
  exact lists.inside

theorem not_encloses_self (wellFormed : model.WellFormed) : ¬ model.Encloses id id := by
  intro encloses
  obtain ⟨tree, fits, rfl⟩ := wellFormed.treeAt encloses.inside
  have distinct := wellFormed.preorder_nodup fits
  have member := fits.mem_nodes_branches_iff.mpr encloses
  cases tree
  rw [Tree.preorder_node, List.nodup_cons] at distinct
  exact distinct.1 member

theorem reaches_antisymm (wellFormed : model.WellFormed) {other : NodeId}
    (down : model.Reaches id other) (up : model.Reaches other id) : id = other := by
  rcases Relation.reflTransGen_iff_eq_or_transGen.mp down with same | encloses
  · exact same.symm
  · exact absurd (Relation.TransGen.trans_left encloses up) (not_encloses_self wellFormed)

/-- A node has one parent. -/
theorem Lists.unique (wellFormed : model.WellFormed) {left right : NodeId}
    (first : model.Lists left id) (second : model.Lists right id) : left = right := by
  obtain ⟨node, found, link⟩ := wellFormed.linked left id first
  obtain ⟨again, foundAgain, otherLink⟩ := wellFormed.linked right id second
  obtain rfl : node = again := by simpa [found] using foundAgain
  simpa [link] using otherLink

/-- Of two nodes around a third one, each in the wide sense, one is around the other. -/
theorem reaches_or_reaches (wellFormed : model.WellFormed) {left right : NodeId}
    (first : model.Reaches left id) (second : model.Reaches right id) :
    model.Reaches left right ∨ model.Reaches right left := by
  have oneParent : Relator.RightUnique (Function.swap model.Lists) :=
    fun _ _ _ one other => Lists.unique wellFormed one other
  rcases Relation.ReflTransGen.total_of_right_unique oneParent
    (Relation.reflTransGen_swap.mpr first) (Relation.reflTransGen_swap.mpr second) with up | up
  · exact .inr (Relation.reflTransGen_swap.mp up)
  · exact .inl (Relation.reflTransGen_swap.mp up)

/-- No node lies below two children of one node. -/
theorem eq_of_siblings (wellFormed : model.WellFormed) {parent left right : NodeId}
    (leftChild : model.Lists parent left) (rightChild : model.Lists parent right)
    (first : model.Reaches left id) (second : model.Reaches right id) : left = right := by
  have apart {upper lower : NodeId} (upperChild : model.Lists parent upper)
      (lowerChild : model.Lists parent lower) (reached : model.Reaches upper lower) :
      upper = lower := by
    rcases reached.cases_tail with same | ⟨middle, further, lists⟩
    · exact same.symm
    · obtain rfl := Lists.unique wellFormed lists lowerChild
      exact absurd (.head' upperChild further) (not_encloses_self wellFormed)
  rcases reaches_or_reaches wellFormed first second with reached | reached
  · exact apart leftChild rightChild reached
  · exact (apart rightChild leftChild reached).symm

/-- A parent link has its child link. -/
theorem lists_of_parent (wellFormed : model.WellFormed) {parent : NodeId}
    (found : model.nodes[id]? = some node) (link : node.parent = some parent) :
    model.Lists parent id := by
  rcases (wellFormed.reached id (lt_size_of_found found)).cases_tail with rfl | ⟨other, _, lists⟩
  · obtain ⟨root, rootFound, orphan⟩ := wellFormed.rooted
    obtain rfl : node = root := by simpa [found] using rootFound
    simp [orphan] at link
  · obtain ⟨again, againFound, otherLink⟩ := wellFormed.linked other id lists
    obtain rfl : node = again := by simpa [found] using againFound
    obtain rfl : parent = other := by simpa [link] using otherLink
    exact lists

/-- The nodes above a node along parent links, nearest first. -/
inductive Line (model : Model) : NodeId → List NodeId → Prop where
  | root {id : NodeId} {node : Node} (found : model.nodes[id]? = some node)
      (orphan : node.parent = none) : Line model id []
  | up {id parent : NodeId} {node : Node} {line : List NodeId}
      (found : model.nodes[id]? = some node) (link : node.parent = some parent)
      (above : Line model parent line) : Line model id (parent :: line)

theorem WellFormed.line (wellFormed : model.WellFormed) (inside : id < model.nodes.size) :
    ∃ line, model.Line id line := by
  induction wellFormed.reached id inside with
  | refl =>
      obtain ⟨root, found, orphan⟩ := wellFormed.rooted
      exact ⟨[], .root found orphan⟩
  | tail _ lists ih =>
      obtain ⟨line, above⟩ := ih lists.inside
      obtain ⟨node, found, link⟩ := wellFormed.linked _ _ lists
      exact ⟨_, .up found link above⟩

namespace Line

variable {line : List NodeId}

theorem mem_iff (wellFormed : model.WellFormed) (above : model.Line id line) {outer : NodeId} :
    outer ∈ line ↔ model.Encloses outer id := by
  induction above with
  | root found orphan =>
      simp only [List.not_mem_nil, false_iff]
      intro encloses
      obtain ⟨parent, _, lists⟩ := Relation.TransGen.tail'_iff.mp encloses
      obtain ⟨node, again, link⟩ := wellFormed.linked _ _ lists
      simp_all
  | @up id parent node line found link above ih =>
      have lists := lists_of_parent wellFormed found link
      rw [List.mem_cons, ih]
      constructor
      · intro either
        rcases either with rfl | encloses
        · exact .single lists
        · exact encloses.tail lists
      · intro encloses
        obtain ⟨other, reached, otherLists⟩ := Relation.TransGen.tail'_iff.mp encloses
        obtain ⟨again, againFound, otherLink⟩ := wellFormed.linked _ _ otherLists
        obtain rfl : node = again := by simpa [found] using againFound
        obtain rfl : parent = other := by simpa [link] using otherLink
        rcases Relation.reflTransGen_iff_eq_or_transGen.mp reached with same | further
        · exact .inl same.symm
        · exact .inr further

theorem pairwise (wellFormed : model.WellFormed) (above : model.Line id line) :
    line.Pairwise fun near far => model.Encloses far near := by
  induction above with
  | root => exact List.Pairwise.nil
  | up found link above ih =>
      exact List.pairwise_cons.mpr ⟨fun _ member => (above.mem_iff wellFormed).mp member, ih⟩

theorem pairwise_self (wellFormed : model.WellFormed) (above : model.Line id line) :
    (id :: line).Pairwise fun near far => model.Encloses far near :=
  List.pairwise_cons.mpr
    ⟨fun _ member => (above.mem_iff wellFormed).mp member, above.pairwise wellFormed⟩

theorem inside_self (wellFormed : model.WellFormed) (above : model.Line id line) :
    ∀ other ∈ id :: line, other < model.nodes.size := by
  intro other member
  rcases List.mem_cons.mp member with rfl | inLine
  · cases above <;> exact lt_size_of_found ‹_›
  · exact ((above.mem_iff wellFormed).mp inLine).inside

theorem nodup_self (wellFormed : model.WellFormed) (above : model.Line id line) :
    (id :: line).Nodup := by
  refine (above.pairwise_self wellFormed).imp fun encloses same => ?_
  subst same
  exact not_encloses_self wellFormed encloses

theorem length_lt (wellFormed : model.WellFormed) (above : model.Line id line) :
    line.length < model.nodes.size :=
  length_le_size (above.nodup_self wellFormed) (above.inside_self wellFormed)

theorem climb_eq_ok (above : model.Line id line) {steps : Nat} (enough : line.length < steps) :
    model.climb steps id = .ok (id :: line) := by
  induction above generalizing steps with
  | root found orphan =>
      obtain ⟨steps, rfl⟩ := Nat.exists_eq_add_of_lt enough
      simp [climb, parent_eq_ok found, orphan, bind, Except.bind, pure, Except.pure]
  | up found link above ih =>
      cases steps with
      | zero => omega
      | succ steps =>
          have later := ih (Nat.lt_of_succ_lt_succ enough)
          simp [climb, parent_eq_ok found, link, later, bind, Except.bind, pure, Except.pure]

theorem ancestors_eq_ok (wellFormed : model.WellFormed) (above : model.Line id line) :
    model.ancestors id = .ok line := by
  cases above with
  | root found orphan =>
      simp [ancestors, parent_eq_ok found, orphan, bind, Except.bind, pure, Except.pure]
  | up found link above =>
      simp only [ancestors, parent_eq_ok found, link, bind, Except.bind]
      exact above.climb_eq_ok (above.length_lt wellFormed)

theorem ancestorsAndSelf_eq_ok (wellFormed : model.WellFormed) (above : model.Line id line) :
    model.ancestorsAndSelf id = .ok (id :: line) := by
  obtain ⟨node, found⟩ := found_of_lt_size (above.inside_self wellFormed id (by simp))
  simpa [ancestorsAndSelf, found] using above.climb_eq_ok (above.length_lt wellFormed)

end Line

/-- The innermost of some nodes around one and the same place: every other one of them
is above it. -/
def Innermost (model : Model) (around : NodeId → Prop) (holder : NodeId) : Prop :=
  around holder ∧ ∀ other, around other → model.Reaches other holder

theorem Innermost.unique (wellFormed : model.WellFormed) {around : NodeId → Prop}
    {left right : NodeId} (first : model.Innermost around left)
    (second : model.Innermost around right) : left = right :=
  reaches_antisymm wellFormed (second.2 left first.1) (first.2 right second.1)

/-- The first node of a line with a property is the innermost one with it. -/
theorem find?_line_iff (wellFormed : model.WellFormed) {line : List NodeId}
    (nested : line.Pairwise fun near far => model.Encloses far near) {accepts : NodeId → Bool}
    {holder : NodeId} :
    line.find? accepts = some holder ↔
      model.Innermost (fun outer => outer ∈ line ∧ accepts outer = true) holder := by
  have innermost {first : NodeId} (found : line.find? accepts = some first) :
      model.Innermost (fun outer => outer ∈ line ∧ accepts outer = true) first := by
    obtain ⟨accepted, before, after, rfl, refused⟩ := List.find?_eq_some_iff_append.mp found
    refine ⟨⟨by simp, accepted⟩, fun other around => ?_⟩
    obtain ⟨member, otherAccepted⟩ := around
    rcases List.mem_append.mp member with inBefore | inAfter
    · have := refused other inBefore
      simp [otherAccepted] at this
    · rcases List.mem_cons.mp inAfter with rfl | further
      · exact .refl
      · have inner := (List.pairwise_append.mp nested).2.1
        exact (List.rel_of_pairwise_cons inner further).to_reflTransGen
  constructor
  · exact innermost
  · intro given
    cases found : line.find? accepts with
    | none =>
        have := List.find?_eq_none.mp found holder given.1.1
        simp [given.1.2] at this
    | some first => rw [(innermost found).unique wellFormed given]

end ModelLint.Model
