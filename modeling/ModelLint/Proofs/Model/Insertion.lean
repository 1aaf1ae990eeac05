import ModelLint.Proofs.Model.Ancestry

namespace ModelLint.Model

/-! Models with a statement inserted.

The nodes of the statement are put behind those of the arena, so that all others keep their ids.
One of the old nodes lists the first node of the statement among its children; every other old
node stays as it is. -/

/-- The model with new nodes, one of which is listed by a node of the model at a position among its
children. -/
def insert (model : Model) (holder : NodeId) (position : Nat) (statement : NodeId)
    (added : Array Node) : Model :=
  { model with
    nodes := model.nodes.modify holder (fun node => { node with
      children := node.children.take position ++ statement :: node.children.drop position }) ++
        added }

variable {model : Model} {holder statement id : NodeId} {position : Nat} {added : Array Node}
  {node : Node}

theorem insert_getElem? (inside : id < model.nodes.size) :
    (model.insert holder position statement added).nodes[id]? =
      if holder = id then model.nodes[id]?.map fun node => { node with
        children := node.children.take position ++ statement :: node.children.drop position }
      else model.nodes[id]? := by
  rw [insert, Array.getElem?_append_left (by simpa using inside), Array.getElem?_modify]

theorem insert_found_of_ne (found : model.nodes[id]? = some node) (other : holder ≠ id) :
    (model.insert holder position statement added).nodes[id]? = some node := by
  rw [insert_getElem? (lt_size_of_found found), if_neg other, found]

theorem insert_found_holder (found : model.nodes[holder]? = some node) :
    (model.insert holder position statement added).nodes[holder]? = some { node with
      children := node.children.take position ++ statement :: node.children.drop position } := by
  rw [insert_getElem? (lt_size_of_found found), if_pos rfl, found]
  rfl

theorem lists_insert_iff {parent child : NodeId} (inside : parent < model.nodes.size) :
    (model.insert holder position statement added).Lists parent child ↔
      model.Lists parent child ∨ parent = holder ∧ child = statement := by
  obtain ⟨node, found⟩ := found_of_lt_size inside
  by_cases isHolder : holder = parent
  · subst isHolder
    have listed : (node.children.take position ++ statement :: node.children.drop position).Perm
        (statement :: node.children) := by
      refine List.perm_middle.trans ?_
      rw [List.take_append_drop]
    simp [Lists, insert_found_holder found, found, listed.mem_iff, or_comm]
  · simp [Lists, insert_found_of_ne found isHolder, found, Ne.symm isHolder]

theorem Encloses.insert {outer inner : NodeId} (encloses : model.Encloses outer inner) :
    (model.insert holder position statement added).Encloses outer inner :=
  Relation.TransGen.mono (fun _ _ lists => (lists_insert_iff lists.inside).mpr (.inl lists))
    _ _ encloses

/-- What a node around the statement encloses is what it enclosed before, and the statement. -/
theorem encloses_insert_iff (wellFormed : model.WellFormed) {outer : NodeId}
    (around : model.Encloses outer holder) :
    (model.insert holder position statement added).Encloses outer id ↔
      model.Encloses outer id ∨
        (model.insert holder position statement added).Reaches statement id := by
  have outerInside := around.inside
  have holderInside := lt_size_of_reaches wellFormed outerInside around.to_reflTransGen
  -- A step from an old node leads to an old one, unless it enters the statement.
  have step {parent child : NodeId} (inside : parent < model.nodes.size)
      (reached : model.Reaches outer parent)
      (lists : (model.insert holder position statement added).Lists parent child) :
      model.Encloses outer child ∨
        (model.insert holder position statement added).Reaches statement child := by
    rcases (lists_insert_iff inside).mp lists with old | ⟨_, rfl⟩
    · exact .inl (.tail' reached old)
    · exact .inr .refl
  constructor
  · intro encloses
    induction encloses with
    | single lists => exact step outerInside .refl lists
    | tail _ lists ih =>
        rcases ih with old | new
        · have reached := old.to_reflTransGen
          exact step (lt_size_of_reaches wellFormed outerInside reached) reached lists
        · exact .inr (new.tail lists)
  · intro either
    rcases either with old | new
    · exact old.insert
    · have enters : (model.insert holder position statement added).Lists holder statement :=
        (lists_insert_iff holderInside).mpr (.inr ⟨rfl, rfl⟩)
      exact around.insert.trans_left (new.head enters)

end ModelLint.Model
