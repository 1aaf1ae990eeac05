import Mathlib.Data.List.Nodup
import Mathlib.Data.List.Perm.Subperm
import ModelLint.Model.Builder
import ModelLint.Model.Codec
import ModelLint.Proofs.Fallible
import ModelLint.Proofs.Model.Tree

namespace ModelLint.Model

/-! Accepted models are the rooted trees with closed references.

The checks look at child links only. That parent links lead up to the root, and that
no node is listed twice, follows from the search over the child links: it succeeds
on no graph but a tree, and it succeeds on every tree. -/

/-- A rooted tree whose references all have something behind them. -/
structure WellFormed (model : Model) : Prop where
  rooted : ∃ root, model.nodes[model.root]? = some root ∧ root.parent = none
  /-- A listed child is there, and its parent is the node that lists it. -/
  linked : ∀ parent child, model.Lists parent child →
    ∃ node, model.nodes[child]? = some node ∧ node.parent = some parent
  distinct : ∀ (id : NodeId) (node : Node), model.nodes[id]? = some node → node.children.Nodup
  reached : ∀ id < model.nodes.size, model.Reaches model.root id
  nodeSymbols : ∀ (id : NodeId) (node : Node), model.nodes[id]? = some node → ∀ symbol,
    node.symbol = some symbol ∨ node.declares = some symbol → symbol < model.symbols.size
  containers : ∀ (id : SymbolId) (symbol : Symbol), model.symbols[id]? = some symbol →
    ∀ container, symbol.container = some container → container < model.symbols.size
  declarations : ∀ (id : SymbolId) (symbol : Symbol), model.symbols[id]? = some symbol →
    ∀ declaration, symbol.declaration = some declaration → declaration < model.nodes.size

variable {model : Model}

theorem lt_size_of_found {id : NodeId} {node : Node} (found : model.nodes[id]? = some node) :
    id < model.nodes.size :=
  (Array.getElem?_eq_some_iff.mp found).1

theorem found_of_lt_size {id : NodeId} (inside : id < model.nodes.size) :
    ∃ node, model.nodes[id]? = some node :=
  ⟨_, Array.getElem?_eq_getElem inside⟩

theorem length_le_size {size : Nat} {ids : List Nat} (distinct : ids.Nodup)
    (inside : ∀ id ∈ ids, id < size) : ids.length ≤ size := by
  have bound := (distinct.subperm fun id member =>
    List.mem_range.mpr (inside id member)).length_le
  rwa [List.length_range] at bound

theorem checkRoot_eq_ok :
    model.checkRoot = .ok () ↔
      ∃ root, model.nodes[model.root]? = some root ∧ root.parent = none := by
  unfold checkRoot
  cases model.nodes[model.root]? with
  | none => simp
  | some root => cases parent : root.parent <;> simp [parent]

theorem checkSymbolRef_eq_ok {reference : Option SymbolId} :
    model.checkSymbolRef reference = .ok () ↔
      ∀ symbol, reference = some symbol → symbol < model.symbols.size := by
  cases reference with
  | none => simp [checkSymbolRef]
  | some symbol => by_cases inside : symbol < model.symbols.size <;> simp [checkSymbolRef, inside]

theorem checkChild_eq_ok {id child : NodeId} :
    model.checkChild id child = .ok () ↔
      ∃ node, model.nodes[child]? = some node ∧ node.parent = some id := by
  unfold checkChild
  cases model.nodes[child]? with
  | none => simp
  | some node => by_cases same : node.parent = some id <;> simp [same]

theorem checkNode_eq_ok {id : NodeId} {node : Node} :
    model.checkNode id node = .ok () ↔
      (∀ child ∈ node.children,
        ∃ inner, model.nodes[child]? = some inner ∧ inner.parent = some id) ∧
      ∀ symbol, node.symbol = some symbol ∨ node.declares = some symbol →
        symbol < model.symbols.size := by
  unfold checkNode
  simp only [Fallible.andThen_eq_ok, Fallible.forM_eq_ok, checkChild_eq_ok, checkSymbolRef_eq_ok,
    or_imp, forall_and]

theorem checkNodes_eq_ok :
    model.checkNodes = .ok () ↔
      (∀ parent child, model.Lists parent child →
        ∃ node, model.nodes[child]? = some node ∧ node.parent = some parent) ∧
      ∀ (id : NodeId) (node : Node), model.nodes[id]? = some node → ∀ symbol,
        node.symbol = some symbol ∨ node.declares = some symbol →
          symbol < model.symbols.size := by
  have each : model.checkNodes = .ok () ↔
      ∀ (id : NodeId) (node : Node), model.nodes[id]? = some node →
        model.checkNode id node = .ok () := by
    simp only [checkNodes, Fallible.forM_eq_ok, Prod.forall, List.mk_mem_zipIdx_iff_getElem?,
      Array.getElem?_toList]
    exact forall_comm
  simp only [each, checkNode_eq_ok]
  constructor
  · intro checked
    refine ⟨fun parent child lists => ?_, fun id node found => (checked id node found).2⟩
    obtain ⟨node, found, member⟩ := lists
    exact (checked parent node found).1 child member
  · intro closed id node found
    obtain ⟨linked, symbols⟩ := closed
    exact ⟨fun child member => linked id child ⟨node, found, member⟩, symbols id node found⟩

theorem checkSymbol_eq_ok {symbol : Symbol} :
    model.checkSymbol symbol = .ok () ↔
      (∀ container, symbol.container = some container → container < model.symbols.size) ∧
      ∀ declaration, symbol.declaration = some declaration →
        declaration < model.nodes.size := by
  unfold checkSymbol
  rw [Fallible.andThen_eq_ok, checkSymbolRef_eq_ok]
  cases symbol.declaration with
  | none => simp
  | some declaration => by_cases inside : declaration < model.nodes.size <;> simp [inside]

theorem checkSymbols_eq_ok :
    model.checkSymbols = .ok () ↔
      (∀ (id : SymbolId) (symbol : Symbol), model.symbols[id]? = some symbol →
        ∀ container, symbol.container = some container → container < model.symbols.size) ∧
      ∀ (id : SymbolId) (symbol : Symbol), model.symbols[id]? = some symbol →
        ∀ declaration, symbol.declaration = some declaration →
          declaration < model.nodes.size := by
  simp only [checkSymbols, Fallible.forM_eq_ok, checkSymbol_eq_ok, List.mem_iff_getElem?,
    Array.getElem?_toList, forall_exists_index]
  constructor
  · intro checked
    exact ⟨fun id symbol found => (checked symbol id found).1,
      fun id symbol found => (checked symbol id found).2⟩
  · intro closed symbol id found
    obtain ⟨containers, declarations⟩ := closed
    exact ⟨containers id symbol found, declarations id symbol found⟩

theorem getD_setIfInBounds (seen : Array Bool) (id other : NodeId) :
    (seen.setIfInBounds id true).getD other false =
      if id = other ∧ other < seen.size then true else seen.getD other false := by
  simp only [Array.getD_eq_getD_getElem?, Array.getElem?_setIfInBounds]
  split <;> split <;> grind

/-- Where the marks are those of the visited nodes, another mark makes another visited node. -/
theorem marks_cons {seen : Array Bool} {visited : List NodeId} {id : NodeId}
    (marks : ∀ id, seen.getD id false = true ↔ id ∈ visited) (inside : id < seen.size)
    (other : NodeId) :
    (seen.setIfInBounds id true).getD other false = true ↔ other ∈ id :: visited := by
  rw [getD_setIfInBounds, List.mem_cons, ← marks]
  by_cases equal : id = other
  · subst equal
    simp [inside]
  · simp [equal, Ne.symm equal]

/-- The trees that a search from the pending nodes has found. -/
structure Searched (model : Model) (seen : Array Bool) (pending : List NodeId)
    (marked : Array Bool) (forest : List Tree) : Prop where
  roots : forest.map Tree.id = pending
  fit : ∀ tree ∈ forest, tree.Fits model
  distinct : (Tree.nodes forest).Nodup
  fresh : ∀ id ∈ Tree.nodes forest, seen.getD id false = false
  marks : ∀ id, marked.getD id false = true ↔ seen.getD id false = true ∨ id ∈ Tree.nodes forest

theorem Searched.nothing {seen : Array Bool} : model.Searched seen [] seen [] where
  roots := rfl
  fit := by simp
  distinct := by simp
  fresh := by simp
  marks := by simp

theorem Searched.step {seen marked : Array Bool} {id : NodeId} {node : Node}
    {rest : List NodeId} {forest : List Tree} (size : seen.size = model.nodes.size)
    (found : model.nodes[id]? = some node) (unseen : seen.getD id false = false)
    (searched : model.Searched (seen.setIfInBounds id true) (node.children.reverse ++ rest)
      marked forest) :
    ∃ grown, model.Searched seen (id :: rest) marked grown := by
  obtain ⟨lower, upper, rfl, lowerIds, upperIds⟩ := List.map_eq_append_iff.mp searched.roots
  have inside : id < seen.size := size ▸ lt_size_of_found found
  have listed : node.children = lower.reverse.map Tree.id := by
    rw [List.map_reverse, lowerIds, List.reverse_reverse]
  have same : (Tree.nodes (Tree.node id node lower.reverse :: upper)).Perm
      (id :: Tree.nodes (lower ++ upper)) := by
    simp only [Tree.nodes_cons, Tree.preorder_node, Tree.nodes_append, List.cons_append]
    exact ((Tree.nodes_perm lower.reverse_perm).append_right _).cons id
  have set (other : NodeId) := getD_setIfInBounds seen id other
  have absent : id ∉ Tree.nodes (lower ++ upper) := by
    intro member
    have := searched.fresh id member
    simp [set, inside] at this
  refine ⟨.node id node lower.reverse :: upper, ?_, ?_, ?_, ?_, ?_⟩
  · simp [Tree.id, upperIds]
  · intro tree member
    rcases List.mem_cons.mp member with rfl | inUpper
    · exact .node found listed fun inner inLower =>
        searched.fit inner (by simpa using .inl (List.mem_reverse.mp inLower))
    · exact searched.fit tree (List.mem_append_right _ inUpper)
  · rw [same.nodup_iff, List.nodup_cons]
    exact ⟨absent, searched.distinct⟩
  · intro other member
    rcases List.mem_cons.mp (same.mem_iff.mp member) with rfl | below
    · exact unseen
    · have := searched.fresh other below
      rw [set] at this
      split at this
      · contradiction
      · exact this
  · intro other
    rw [searched.marks, set, same.mem_iff, List.mem_cons]
    by_cases equal : id = other
    · subst equal
      simp [inside]
    · simp [equal, Ne.symm equal]

/-- A search that succeeds has nothing pending, or takes a node that is not marked. -/
theorem reach_cases {steps : Nat} {seen marked : Array Bool} {pending : List NodeId}
    (succeeded : model.reach steps seen pending = .ok marked) :
    (pending = [] ∧ marked = seen) ∨
      ∃ left id rest, steps = left + 1 ∧ pending = id :: rest ∧ seen.getD id false = false ∧
        model.reach left (seen.setIfInBounds id true)
          ((model.nodes[id]?.elim [] Node.children).reverse ++ rest) = .ok marked := by
  cases pending with
  | nil => exact .inl ⟨rfl, by simpa [reach, eq_comm] using succeeded⟩
  | cons id rest =>
      cases steps with
      | zero => simp [reach] at succeeded
      | succ left =>
          by_cases unseen : seen.getD id false = false
          · simp only [reach, unseen, Bool.false_eq_true, if_false] at succeeded
            exact .inr ⟨left, id, rest, rfl, rfl, unseen, succeeded⟩
          · simp [reach, unseen] at succeeded

theorem size_of_reach {steps : Nat} {seen marked : Array Bool} {pending : List NodeId}
    (succeeded : model.reach steps seen pending = .ok marked) : marked.size = seen.size := by
  induction steps generalizing seen pending with
  | zero =>
      rcases reach_cases succeeded with ⟨_, rfl⟩ | ⟨_, _, _, positive, _⟩
      · rfl
      · omega
  | succ steps ih =>
      rcases reach_cases succeeded with ⟨_, rfl⟩ | ⟨left, id, rest, same, _, _, next⟩
      · rfl
      · obtain rfl : steps = left := by omega
        simpa using ih next

/-- A search that succeeds has found trees without a common node. -/
theorem reach_sound (closed : ∀ parent child, model.Lists parent child → child < model.nodes.size)
    {steps : Nat} {seen marked : Array Bool} {pending : List NodeId}
    (size : seen.size = model.nodes.size) (inside : ∀ id ∈ pending, id < model.nodes.size)
    (succeeded : model.reach steps seen pending = .ok marked) :
    ∃ forest, model.Searched seen pending marked forest := by
  induction steps generalizing seen pending with
  | zero =>
      rcases reach_cases succeeded with ⟨rfl, rfl⟩ | ⟨_, _, _, positive, _⟩
      · exact ⟨[], .nothing⟩
      · omega
  | succ steps ih =>
      rcases reach_cases succeeded with ⟨rfl, rfl⟩ | ⟨left, id, rest, same, rfl, unseen, next⟩
      · exact ⟨[], .nothing⟩
      · obtain rfl : steps = left := by omega
        obtain ⟨node, found⟩ := found_of_lt_size (inside id (by simp))
        simp only [found, Option.elim] at next
        have insideNext : ∀ next ∈ node.children.reverse ++ rest, next < model.nodes.size := by
          intro next member
          rcases List.mem_append.mp member with child | inRest
          · exact closed id next ⟨node, found, List.mem_reverse.mp child⟩
          · exact inside next (List.mem_cons_of_mem _ inRest)
        obtain ⟨forest, searched⟩ := ih (by simpa using size) insideNext next
        exact searched.step size found unseen

/-- What holds whenever a search over a tree takes the next node: nothing pending
has been visited, and the visited and pending nodes are the root and the children of
the visited ones. -/
structure Frontier (model : Model) (visited pending : List NodeId) : Prop where
  distinct : (pending ++ visited).Nodup
  inside : ∀ id ∈ pending ++ visited, id < model.nodes.size
  rooted : model.root ∈ pending ++ visited
  listed : ∀ id ∈ pending ++ visited, id = model.root ∨ ∃ parent ∈ visited, model.Lists parent id
  closed : ∀ parent ∈ visited, ∀ child, model.Lists parent child → child ∈ pending ++ visited

namespace Frontier

variable {visited pending rest : List NodeId} {id : NodeId}

theorem start (wellFormed : model.WellFormed) : model.Frontier [] [model.root] := by
  obtain ⟨root, found, _⟩ := wellFormed.rooted
  exact ⟨by simp, by simpa using lt_size_of_found found, by simp, by simp, by simp⟩

/-- A child of the node taken is neither pending nor visited: its parent would have to
be another node, or it would be the root. -/
theorem child_fresh (wellFormed : model.WellFormed) (frontier : model.Frontier visited (id :: rest))
    {child : NodeId} (lists : model.Lists id child) : child ∉ id :: rest ++ visited := by
  intro member
  obtain ⟨node, found, link⟩ := wellFormed.linked id child lists
  rcases frontier.listed child member with rfl | ⟨parent, inVisited, other⟩
  · obtain ⟨root, rootFound, orphan⟩ := wellFormed.rooted
    obtain rfl : node = root := by simpa [found] using rootFound
    simp [orphan] at link
  · obtain ⟨again, foundAgain, otherLink⟩ := wellFormed.linked parent child other
    obtain rfl : node = again := by simpa [found] using foundAgain
    obtain rfl : id = parent := by simpa [link] using otherLink
    exact (List.nodup_cons.mp frontier.distinct).1 (List.mem_append_right _ inVisited)

theorem step (wellFormed : model.WellFormed) (frontier : model.Frontier visited (id :: rest))
    {node : Node} (found : model.nodes[id]? = some node) :
    model.Frontier (id :: visited) (node.children.reverse ++ rest) := by
  have lists {child : NodeId} : model.Lists id child ↔ child ∈ node.children := by
    simp [Lists, found]
  have moved : (node.children.reverse ++ rest ++ id :: visited).Perm
      (node.children ++ (id :: rest ++ visited)) := by
    rw [List.append_assoc]
    exact node.children.reverse_perm.append List.perm_middle
  have member {other : NodeId} : other ∈ node.children.reverse ++ rest ++ id :: visited ↔
      other ∈ node.children ∨ other ∈ id :: rest ++ visited :=
    moved.mem_iff.trans List.mem_append
  constructor
  · rw [moved.nodup_iff]
    refine List.nodup_append.mpr ⟨wellFormed.distinct id node found, frontier.distinct, ?_⟩
    intro child inChildren other before same
    subst same
    exact frontier.child_fresh wellFormed (lists.mpr inChildren) before
  · intro other inside
    rcases member.mp inside with child | before
    · obtain ⟨inner, innerFound, _⟩ := wellFormed.linked id other (lists.mpr child)
      exact lt_size_of_found innerFound
    · exact frontier.inside other before
  · exact member.mpr (.inr frontier.rooted)
  · intro other inside
    rcases member.mp inside with child | before
    · exact .inr ⟨id, by simp, lists.mpr child⟩
    · rcases frontier.listed other before with root | ⟨parent, inVisited, link⟩
      · exact .inl root
      · exact .inr ⟨parent, by simp [inVisited], link⟩
  · intro parent inVisited child link
    rw [member]
    rcases List.mem_cons.mp inVisited with rfl | before
    · exact .inl (lists.mp link)
    · exact .inr (frontier.closed parent before child link)

theorem length_le (frontier : model.Frontier visited pending) :
    pending.length + visited.length ≤ model.nodes.size := by
  simpa using length_le_size frontier.distinct frontier.inside

theorem mem_of_reached (frontier : model.Frontier visited [])
    (reached : model.Reaches model.root id) : id ∈ visited := by
  induction reached with
  | refl => simpa using frontier.rooted
  | tail _ lists ih => simpa using frontier.closed _ ih _ lists

end Frontier

/-- A search over a tree succeeds and marks every node. -/
theorem reach_complete (wellFormed : model.WellFormed) {steps : Nat} {seen : Array Bool}
    {visited pending : List NodeId} (frontier : model.Frontier visited pending)
    (size : seen.size = model.nodes.size)
    (marks : ∀ id, seen.getD id false = true ↔ id ∈ visited)
    (enough : model.nodes.size ≤ steps + visited.length) :
    ∃ marked, model.reach steps seen pending = .ok marked ∧
      ∀ id < model.nodes.size, marked.getD id false = true := by
  induction steps generalizing seen visited pending with
  | zero =>
      have bound := frontier.length_le
      obtain rfl : pending = [] := List.eq_nil_of_length_eq_zero (by omega)
      exact ⟨seen, by simp [reach], fun id inside =>
        (marks id).mpr (frontier.mem_of_reached (wellFormed.reached id inside))⟩
  | succ steps ih =>
      cases pending with
      | nil =>
          exact ⟨seen, by simp [reach], fun id inside =>
            (marks id).mpr (frontier.mem_of_reached (wellFormed.reached id inside))⟩
      | cons id rest =>
          have inside := frontier.inside id (by simp)
          obtain ⟨node, found⟩ := found_of_lt_size inside
          have unseen : seen.getD id false = false := by
            rw [← Bool.not_eq_true, marks]
            exact fun before =>
              (List.nodup_cons.mp frontier.distinct).1 (List.mem_append_right _ before)
          obtain ⟨marked, succeeded, all⟩ := ih (frontier.step wellFormed found)
            (by simpa using size) (marks_cons marks (size ▸ inside))
            (by simp only [List.length_cons]; omega)
          refine ⟨marked, ?_, all⟩
          simpa only [reach, unseen, found, Bool.false_eq_true, if_false, Option.elim]
            using succeeded

/-- The model is one tree, in which every node stands once. -/
def IsTree (model : Model) (tree : Tree) : Prop :=
  tree.Fits model ∧ tree.id = model.root ∧ tree.preorder.Nodup ∧
    ∀ id, id ∈ tree.preorder ↔ id < model.nodes.size

theorem findIdx?_not_eq_none {marked : Array Bool} :
    marked.findIdx? (!·) = none ↔ ∀ id < marked.size, marked.getD id false = true := by
  rw [Array.findIdx?_eq_none_iff]
  constructor
  · intro all id inside
    simpa [Array.getD_eq_getD_getElem?, inside] using all _ (Array.getElem_mem inside)
  · intro all flag member
    obtain ⟨id, inside, rfl⟩ := Array.mem_iff_getElem.mp member
    simpa [Array.getD_eq_getD_getElem?, inside] using all id inside

theorem checkShape_eq_ok :
    model.checkShape = .ok () ↔ ∃ marked,
      model.reach model.nodes.size (Array.replicate model.nodes.size false) [model.root] =
        .ok marked ∧
      ∀ id < model.nodes.size, marked.getD id false = true := by
  unfold checkShape
  rw [Fallible.bind_eq_ok]
  refine exists_congr fun marked => and_congr_right fun succeeded => ?_
  have size : marked.size = model.nodes.size := by simpa using size_of_reach succeeded
  rw [← size, ← findIdx?_not_eq_none]
  cases marked.findIdx? (!·) <;> simp

theorem getD_replicate (size : Nat) (id : NodeId) :
    (Array.replicate size false).getD id false = false := by
  by_cases inside : id < size <;> simp [Array.getD_eq_getD_getElem?, inside]

/-- Where every child is there, the search accepts only trees. -/
theorem isTree_of_checkShape
    (closed : ∀ parent child, model.Lists parent child → child < model.nodes.size)
    (inside : model.root < model.nodes.size) (accepted : model.checkShape = .ok ()) :
    ∃ tree, model.IsTree tree := by
  obtain ⟨marked, succeeded, all⟩ := checkShape_eq_ok.mp accepted
  obtain ⟨forest, searched⟩ :=
    reach_sound closed (by simp) (by simpa using inside) succeeded
  obtain ⟨tree, rfl, same⟩ := List.map_eq_singleton_iff.mp searched.roots
  have fits := searched.fit tree (by simp)
  have distinct := searched.distinct
  simp only [Tree.nodes_cons, Tree.nodes_nil, List.append_nil] at distinct
  refine ⟨tree, fits, same, distinct, fun id => ⟨fun member => ?_, fun within => ?_⟩⟩
  · obtain ⟨inner, innerFits, rfl, _⟩ := fits.subtree member
    exact lt_size_of_found innerFits.found
  · have marked := (searched.marks id).mp (all id within)
    rw [getD_replicate] at marked
    simpa using marked

theorem IsTree.children_nodup {tree : Tree} (isTree : model.IsTree tree) {id : NodeId} {node : Node}
    (found : model.nodes[id]? = some node) : node.children.Nodup := by
  obtain ⟨fits, _, distinct, all⟩ := isTree
  obtain ⟨inner, innerFits, rfl, block⟩ := fits.subtree ((all id).mpr (lt_size_of_found found))
  obtain rfl : inner.content = node := by simpa [innerFits.found] using found
  rw [innerFits.listed]
  have innerDistinct := block.sublist.nodup distinct
  cases inner
  rw [Tree.preorder_node, List.nodup_cons] at innerDistinct
  exact (Tree.ids_sublist_nodes _).nodup innerDistinct.2

theorem check_eq_ok_iff_parts :
    model.check = .ok () ↔ model.checkRoot = .ok () ∧ model.checkNodes = .ok () ∧
      model.checkShape = .ok () ∧ model.checkSymbols = .ok () := by
  simp only [check, Fallible.andThen_eq_ok]

theorem WellFormed.checkShape (wellFormed : model.WellFormed) : model.checkShape = .ok () := by
  refine checkShape_eq_ok.mpr
    (reach_complete wellFormed (.start wellFormed) (by simp) (fun id => ?_) (by simp))
  rw [getD_replicate]
  simp

theorem check_of_wellFormed (wellFormed : model.WellFormed) : model.check = .ok () :=
  check_eq_ok_iff_parts.mpr ⟨checkRoot_eq_ok.mpr wellFormed.rooted,
    checkNodes_eq_ok.mpr ⟨wellFormed.linked, wellFormed.nodeSymbols⟩, wellFormed.checkShape,
    checkSymbols_eq_ok.mpr ⟨wellFormed.containers, wellFormed.declarations⟩⟩

theorem closed_of_linked
    (linked : ∀ parent child, model.Lists parent child →
      ∃ node, model.nodes[child]? = some node ∧ node.parent = some parent) :
    ∀ parent child, model.Lists parent child → child < model.nodes.size := by
  intro parent child lists
  obtain ⟨node, found, _⟩ := linked parent child lists
  exact lt_size_of_found found

theorem wellFormed_of_check (accepted : model.check = .ok ()) : model.WellFormed := by
  obtain ⟨root, nodes, shape, symbols⟩ := check_eq_ok_iff_parts.mp accepted
  have rooted := checkRoot_eq_ok.mp root
  obtain ⟨linked, nodeSymbols⟩ := checkNodes_eq_ok.mp nodes
  obtain ⟨containers, declarations⟩ := checkSymbols_eq_ok.mp symbols
  obtain ⟨tree, isTree⟩ := isTree_of_checkShape (closed_of_linked linked)
    (lt_size_of_found rooted.choose_spec.1) shape
  refine ⟨rooted, linked, fun id node found => isTree.children_nodup found, ?_, nodeSymbols,
    containers, declarations⟩
  obtain ⟨fits, same, _, all⟩ := isTree
  intro id inside
  rw [← same]
  exact fits.mem_preorder_iff.mp ((all id).mpr inside)

theorem check_iff_wellFormed : model.check = .ok () ↔ model.WellFormed :=
  ⟨wellFormed_of_check, check_of_wellFormed⟩

theorem WellFormed.listed_once (wellFormed : model.WellFormed) {id : NodeId}
    (inside : id < model.nodes.size) (inner : id ≠ model.root) :
    ∃ parent node, model.nodes[parent]? = some node ∧ node.children.count id = 1 ∧
      ∀ other, model.Lists other id → other = parent := by
  rcases (wellFormed.reached id inside).cases_tail with same | ⟨parent, _, lists⟩
  · exact absurd same inner
  · obtain ⟨child, childFound, link⟩ := wellFormed.linked parent id lists
    obtain ⟨node, found, member⟩ := lists
    refine ⟨parent, node, found, ?_, ?_⟩
    · exact List.count_eq_one_of_mem (wellFormed.distinct parent node found) member
    · intro other otherLists
      obtain ⟨again, againFound, otherLink⟩ := wellFormed.linked other id otherLists
      obtain rfl : child = again := by simpa [childFound] using againFound
      simpa [otherLink] using link

theorem read_eq_ok_iff {text : String} :
    read text = .ok model ↔
      (Json.parse? text >>= ofJson?) = some model ∧ model.check = .ok () := by
  unfold read
  cases Json.parse? text >>= ofJson? with
  | none => simp
  | some decoded =>
      simp only [Option.some.injEq]
      cases checked : decoded.check with
      | ok =>
          simp only [Except.ok.injEq]
          exact ⟨fun same => ⟨same, same ▸ checked⟩, And.left⟩
      | error defect =>
          simp only [reduceCtorEq, false_iff, not_and]
          intro same
          subst same
          simp [checked]

theorem build_eq_ok_iff {builder : Builder} :
    builder.build = .ok model ↔ builder.model = model ∧ model.check = .ok () := by
  unfold Builder.build
  rw [Fallible.bind_eq_ok]
  constructor
  · intro built
    obtain ⟨_, accepted, same⟩ := built
    obtain rfl : builder.model = model := by simpa [pure, Except.pure] using same
    exact ⟨rfl, accepted⟩
  · intro given
    exact ⟨(), given.1 ▸ given.2, by rw [given.1]; rfl⟩

/-- A model is accepted exactly if it is a rooted tree with closed references; then
every node but the root is listed once, by one parent. Reading and building accept
the same models. -/
theorem check_eq_ok_iff (model : Model) :
    (model.check = .ok () ↔ model.WellFormed) ∧
    (model.check = .ok () → ∀ id < model.nodes.size, id ≠ model.root →
      ∃ parent node, model.nodes[parent]? = some node ∧ node.children.count id = 1 ∧
        ∀ other, model.Lists other id → other = parent) ∧
    (∀ text, read text = .ok model ↔
      (Json.parse? text >>= ofJson?) = some model ∧ model.WellFormed) ∧
    ∀ builder : Builder, builder.build = .ok model ↔
      builder.model = model ∧ model.WellFormed := by
  rw [← check_iff_wellFormed]
  refine ⟨.rfl, ?_, fun text => read_eq_ok_iff, fun builder => build_eq_ok_iff⟩
  intro accepted id inside inner
  exact (wellFormed_of_check accepted).listed_once inside inner

end ModelLint.Model
