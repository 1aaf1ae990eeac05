import Mathlib.Data.List.Perm.Basic
import Mathlib.Logic.Relation
import ModelLint.Model.Query

namespace ModelLint

/-! The ordered tree behind a model.

A model is an arena whose nodes list their children by id. Where the child links
form no cycle, everything below a node is an ordered tree. The tree is the semantic
model of the arena: walks bounded by a number of steps are compared with recursions
over it. -/

namespace Model

def Lists (model : Model) (parent child : NodeId) : Prop :=
  ∃ node, model.nodes[parent]? = some node ∧ child ∈ node.children

/-- Child links, of which there may be none, lead from one node to another. -/
def Reaches (model : Model) : NodeId → NodeId → Prop :=
  Relation.ReflTransGen model.Lists

def Encloses (model : Model) : NodeId → NodeId → Prop :=
  Relation.TransGen model.Lists

end Model

/-- A node with what it holds and the trees below it. -/
inductive Tree where
  | node (id : NodeId) (content : Node) (branches : List Tree)

namespace Tree

def id : Tree → NodeId
  | node id _ _ => id

def content : Tree → Node
  | node _ content _ => content

def branches : Tree → List Tree
  | node _ _ branches => branches

/-- The nodes of a tree, each before those below it. -/
def preorder : Tree → List NodeId
  | node id _ branches => id :: branches.flatMap preorder

def nodes (forest : List Tree) : List NodeId :=
  forest.flatMap preorder

@[simp] theorem preorder_node (id : NodeId) (content : Node) (branches : List Tree) :
    (node id content branches).preorder = id :: nodes branches := by
  rw [preorder, nodes]

@[simp] theorem nodes_nil : nodes [] = [] := rfl

@[simp] theorem nodes_cons (tree : Tree) (forest : List Tree) :
    nodes (tree :: forest) = tree.preorder ++ nodes forest := rfl

@[simp] theorem nodes_append (left right : List Tree) :
    nodes (left ++ right) = nodes left ++ nodes right :=
  List.flatMap_append

theorem mem_nodes {forest : List Tree} {id : NodeId} :
    id ∈ nodes forest ↔ ∃ tree ∈ forest, id ∈ tree.preorder :=
  List.mem_flatMap

theorem id_mem_preorder (tree : Tree) : tree.id ∈ tree.preorder := by
  cases tree
  simp [id]

theorem nodes_perm {left right : List Tree} (same : left.Perm right) :
    (nodes left).Perm (nodes right) :=
  same.flatMap_right preorder

/-- Every tree of a forest is there as a block. -/
theorem preorder_infix_nodes {forest : List Tree} {tree : Tree} (member : tree ∈ forest) :
    tree.preorder <:+: nodes forest := by
  obtain ⟨before, after, rfl⟩ := List.append_of_mem member
  exact ⟨nodes before, nodes after, by simp⟩

theorem ids_sublist_nodes (forest : List Tree) :
    (forest.map id).Sublist (nodes forest) := by
  induction forest with
  | nil => exact List.Sublist.slnil
  | cons tree rest ih =>
      obtain ⟨id, content, branches⟩ := tree
      simp only [List.map_cons, nodes_cons, preorder_node, List.cons_append]
      exact (ih.trans (List.sublist_append_right _ _)).cons_cons id

/-- The tree is the one that a model has at its id: each of its nodes is in the
arena and lists the nodes right below it, in order. -/
inductive Fits (model : Model) : Tree → Prop where
  | node {id : NodeId} {content : Node} {branches : List Tree}
      (found : model.nodes[id]? = some content)
      (listed : content.children = branches.map Tree.id)
      (fit : ∀ tree ∈ branches, Fits model tree) :
      Fits model (node id content branches)

variable {model : Model} {tree : Tree}

namespace Fits

theorem found (fits : tree.Fits model) : model.nodes[tree.id]? = some tree.content := by
  cases fits
  assumption

theorem listed (fits : tree.Fits model) : tree.content.children = tree.branches.map Tree.id := by
  cases fits
  assumption

theorem branches (fits : tree.Fits model) : ∀ inner ∈ tree.branches, inner.Fits model := by
  cases fits
  assumption

/-- The nodes of the tree are those that child links lead to. -/
theorem mem_preorder_iff (fits : tree.Fits model) {id : NodeId} :
    id ∈ tree.preorder ↔ model.Reaches tree.id id := by
  induction fits with
  | @node root content branches found listed fit ih =>
      simp only [preorder_node, List.mem_cons, mem_nodes]
      constructor
      · intro either
        rcases either with rfl | ⟨inner, member, within⟩
        · exact .refl
        · have step : model.Lists root inner.id :=
            ⟨content, found, by rw [listed]; exact List.mem_map_of_mem member⟩
          exact .head step ((ih inner member).mp within)
      · intro reached
        rcases reached.cases_head with same | ⟨child, ⟨node, lookup, member⟩, rest⟩
        · exact .inl same.symm
        · obtain rfl : content = node := by simpa [Tree.id, found] using lookup
          obtain ⟨inner, inBranches, rfl⟩ := List.mem_map.mp (listed ▸ member)
          exact .inr ⟨inner, inBranches, (ih inner inBranches).mpr rest⟩

/-- The nodes below the root of the tree are those that it encloses. -/
theorem mem_nodes_branches_iff (fits : tree.Fits model) {id : NodeId} :
    id ∈ nodes tree.branches ↔ model.Encloses tree.id id := by
  obtain ⟨found, listed, fit⟩ := fits
  rename_i root content branches
  rw [mem_nodes]
  constructor
  · intro listedBelow
    obtain ⟨inner, member, within⟩ := listedBelow
    have step : model.Lists root inner.id :=
      ⟨content, found, by rw [listed]; exact List.mem_map_of_mem member⟩
    exact .head' step ((fit inner member).mem_preorder_iff.mp within)
  · intro enclosed
    obtain ⟨child, ⟨node, lookup, member⟩, rest⟩ := Relation.TransGen.head'_iff.mp enclosed
    obtain rfl : content = node := by simpa [Tree.id, found] using lookup
    obtain ⟨inner, inBranches, rfl⟩ := List.mem_map.mp (listed ▸ member)
    exact ⟨inner, inBranches, (fit inner inBranches).mem_preorder_iff.mpr rest⟩

/-- Each node of the tree is the root of a tree that is there as a block. -/
theorem subtree (fits : tree.Fits model) {id : NodeId} (member : id ∈ tree.preorder) :
    ∃ inner : Tree, inner.Fits model ∧ inner.id = id ∧ inner.preorder <:+: tree.preorder := by
  induction fits with
  | @node root content branches found listed fit ih =>
      rw [preorder_node, List.mem_cons, mem_nodes] at member
      rcases member with rfl | ⟨branch, inBranches, member⟩
      · exact ⟨.node id content branches, .node found listed fit, rfl, List.infix_refl _⟩
      · obtain ⟨inner, innerFits, same, block⟩ := ih branch inBranches member
        refine ⟨inner, innerFits, same, block.trans ?_⟩
        rw [preorder_node]
        exact List.infix_cons (preorder_infix_nodes inBranches)

private theorem forest_unique {left right : List Tree}
    (unique : ∀ tree ∈ left, ∀ other : Tree, other.Fits model → tree.id = other.id → tree = other)
    (fit : ∀ tree ∈ right, tree.Fits model) (ids : left.map Tree.id = right.map Tree.id) :
    left = right := by
  induction left generalizing right with
  | nil => simpa using ids.symm
  | cons first rest ih =>
      cases right with
      | nil => simp at ids
      | cons otherFirst otherRest =>
          simp only [List.map_cons, List.cons.injEq] at ids
          have firstSame := unique first (by simp) otherFirst (fit otherFirst (by simp)) ids.1
          have restSame := ih (fun tree member => unique tree (List.mem_cons_of_mem _ member))
            (fun tree member => fit tree (List.mem_cons_of_mem _ member)) ids.2
          rw [firstSame, restSame]

theorem unique (fits : tree.Fits model) {other : Tree} (otherFits : other.Fits model)
    (same : tree.id = other.id) : tree = other := by
  induction fits generalizing other with
  | @node root content branches found listed fit ih =>
      obtain ⟨otherFound, otherListed, otherFit⟩ := otherFits
      rename_i otherRoot otherContent otherBranches
      obtain rfl : root = otherRoot := same
      obtain rfl : content = otherContent := by simpa [found] using otherFound
      rw [forest_unique (fun tree member other otherFits => ih tree member otherFits)
        otherFit (listed.symm.trans otherListed)]

/-- A tree of one model is a tree of every other one that has the same nodes there. -/
theorem transfer {other : Model} (fits : tree.Fits model)
    (same : ∀ id ∈ tree.preorder, model.nodes[id]? = other.nodes[id]?) : tree.Fits other := by
  induction fits with
  | @node root content branches found listed fit ih =>
      refine .node ?_ listed fun inner member => ih inner member fun id within => same id ?_
      · rw [← same root (by simp), found]
      · rw [preorder_node, List.mem_cons, mem_nodes]
        exact .inr ⟨inner, member, within⟩

end Fits

end Tree

namespace Model

variable {model : Model}

/-- With enough steps, a visit shows the nodes of the pending trees in turn. -/
theorem visit_eq_nodes {steps : Nat} {forest : List Tree}
    (fit : ∀ tree ∈ forest, tree.Fits model) (enough : (Tree.nodes forest).length ≤ steps) :
    model.visit steps (forest.map Tree.id) = .ok (Tree.nodes forest) := by
  induction steps generalizing forest with
  | zero =>
      cases forest with
      | nil => rfl
      | cons tree rest =>
          have : 0 < tree.preorder.length := List.length_pos_of_mem tree.id_mem_preorder
          simp only [Tree.nodes_cons, List.length_append] at enough
          omega
  | succ steps ih =>
      cases forest with
      | nil => rfl
      | cons tree rest =>
          obtain ⟨found, listed, fitBranches⟩ := fit tree (by simp)
          rename_i id content branches
          have fitNext : ∀ inner ∈ branches ++ rest, inner.Fits model := by
            intro inner member
            rcases List.mem_append.mp member with inBranches | inRest
            · exact fitBranches inner inBranches
            · exact fit inner (List.mem_cons_of_mem _ inRest)
          have later := ih fitNext (by
            simp only [Tree.nodes_cons, Tree.preorder_node, Tree.nodes_append,
              List.length_append, List.length_cons] at enough ⊢
            omega)
          rw [List.map_append] at later
          simp only [List.map_cons, Tree.id, visit, children, Model.node, found, listed, bind,
            pure, Except.bind, Except.pure, later]
          simp

end Model

end ModelLint
