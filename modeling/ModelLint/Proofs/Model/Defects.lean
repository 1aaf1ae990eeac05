import Mathlib.Algebra.BigOperators.Group.List.Basic
import ModelLint.Proofs.Model.WellFormed

namespace ModelLint.Model

/-! What a refused model is told.

A model is refused with a defect that names the ids it is about. What the defect says of them is
true of the model, and a model about which no defect can be said is accepted. The search over the
child links runs only where every child names the node that lists it as its parent: there a node
that is met twice has been listed twice by one node. -/

/-- What a defect says about a model. -/
def Shows (model : Model) : Defect → Prop
  | .missingRoot =>
      model.nodes.size ≤ model.root ∨
        ∃ root parent, model.nodes[model.root]? = some root ∧ root.parent = some parent
  | .danglingNode node referencedBy =>
      model.nodes.size ≤ node ∧
        (model.Lists referencedBy node ∨
          referencedBy = model.root ∧ ∃ (id : SymbolId) (symbol : Symbol),
            model.symbols[id]? = some symbol ∧ symbol.declaration = some node)
  | .parentMismatch node expected found =>
      model.Lists expected node ∧ found ≠ some expected ∧
        ∃ content, model.nodes[node]? = some content ∧ content.parent = found
  | .unreachable node =>
      node < model.nodes.size ∧ ¬ model.Reaches model.root node ∧
        ∀ id < node, model.Reaches model.root id
  | .sharedNode node =>
      ∃ content parent holder, model.nodes[node]? = some content ∧ content.parent = some parent ∧
        model.nodes[parent]? = some holder ∧ 2 ≤ holder.children.count node ∧
        ∀ other, model.Lists other node → other = parent
  | .danglingSymbol symbol =>
      model.symbols.size ≤ symbol ∧
        ((∃ (id : NodeId) (node : Node), model.nodes[id]? = some node ∧
            (node.symbol = some symbol ∨ node.declares = some symbol)) ∨
          ∃ (id : SymbolId) (holder : Symbol), model.symbols[id]? = some holder ∧
            holder.container = some symbol)

variable {model : Model} {defect : Defect}

theorem checkRoot_shows (failed : model.checkRoot = .error defect) : model.Shows defect := by
  unfold checkRoot at failed
  cases found : model.nodes[model.root]? with
  | none =>
      simp only [found, Except.error.injEq] at failed
      subst failed
      exact .inl (Array.getElem?_eq_none_iff.mp found)
  | some root =>
      cases parent : root.parent with
      | none => simp [found, parent] at failed
      | some above =>
          simp only [found, parent, Option.isSome_some, if_true, Except.error.injEq] at failed
          subst failed
          exact .inr ⟨root, above, found, parent⟩

theorem checkSymbolRef_eq_error {reference : Option SymbolId}
    (failed : model.checkSymbolRef reference = .error defect) :
    ∃ symbol, reference = some symbol ∧ model.symbols.size ≤ symbol ∧
      defect = .danglingSymbol symbol := by
  cases reference with
  | none => simp [checkSymbolRef] at failed
  | some symbol =>
      by_cases inside : symbol < model.symbols.size
      · simp [checkSymbolRef, inside] at failed
      · simp only [checkSymbolRef, inside, if_false, Except.error.injEq] at failed
        exact ⟨symbol, rfl, Nat.not_lt.mp inside, failed.symm⟩

theorem checkChild_shows {id child : NodeId} (lists : model.Lists id child)
    (failed : model.checkChild id child = .error defect) : model.Shows defect := by
  unfold checkChild at failed
  cases found : model.nodes[child]? with
  | none =>
      simp only [found, Except.error.injEq] at failed
      subst failed
      exact ⟨Array.getElem?_eq_none_iff.mp found, .inl lists⟩
  | some node =>
      by_cases same : node.parent = some id
      · simp [found, same] at failed
      · simp only [found, same, if_false, Except.error.injEq] at failed
        subst failed
        exact ⟨lists, same, node, found, rfl⟩

theorem checkNode_shows {id : NodeId} {node : Node} (found : model.nodes[id]? = some node)
    (failed : model.checkNode id node = .error defect) : model.Shows defect := by
  rcases Fallible.andThen_eq_error.mp failed with children | ⟨_, references⟩
  · obtain ⟨child, member, wrong⟩ := Fallible.exists_of_forM_eq_error children
    exact checkChild_shows ⟨node, found, member⟩ wrong
  · rcases Fallible.andThen_eq_error.mp references with refers | ⟨_, declares⟩
    · obtain ⟨symbol, isSome, outside, rfl⟩ := checkSymbolRef_eq_error refers
      exact ⟨outside, .inl ⟨id, node, found, .inl isSome⟩⟩
    · obtain ⟨symbol, isSome, outside, rfl⟩ := checkSymbolRef_eq_error declares
      exact ⟨outside, .inl ⟨id, node, found, .inr isSome⟩⟩

theorem checkNodes_shows (failed : model.checkNodes = .error defect) : model.Shows defect := by
  obtain ⟨⟨node, id⟩, member, wrong⟩ := Fallible.exists_of_forM_eq_error failed
  rw [List.mk_mem_zipIdx_iff_getElem?, Array.getElem?_toList] at member
  exact checkNode_shows member wrong

theorem checkSymbols_shows (failed : model.checkSymbols = .error defect) : model.Shows defect := by
  obtain ⟨symbol, member, wrong⟩ := Fallible.exists_of_forM_eq_error failed
  obtain ⟨id, found⟩ := List.mem_iff_getElem?.mp member
  rw [Array.getElem?_toList] at found
  rcases Fallible.andThen_eq_error.mp wrong with container | ⟨_, declaration⟩
  · obtain ⟨outer, isSome, outside, rfl⟩ := checkSymbolRef_eq_error container
    exact ⟨outside, .inr ⟨id, symbol, found, isSome⟩⟩
  · cases declared : symbol.declaration with
    | none => simp [declared] at declaration
    | some node =>
        by_cases inside : node < model.nodes.size
        · simp [declared, inside] at declaration
        · simp only [declared, inside, if_false, Except.error.injEq] at declaration
          subst declaration
          exact ⟨Nat.not_lt.mp inside, .inr ⟨rfl, id, symbol, found, declared⟩⟩

/-- The children that the search takes up at a node. -/
def listing (model : Model) (id : NodeId) : List NodeId :=
  model.nodes[id]?.elim [] Node.children

theorem mem_listing {parent child : NodeId} :
    child ∈ model.listing parent ↔ model.Lists parent child := by
  cases found : model.nodes[parent]? <;> simp [listing, Lists, found]

/-- What holds whenever a search takes the next node, on any graph: the pending and the visited
nodes are the root and the children of the visited ones, each as often as it is listed. -/
structure Tally (model : Model) (visited pending : List NodeId) : Prop where
  distinct : visited.Nodup
  balance : (pending ++ visited).Perm (model.root :: visited.flatMap model.listing)

namespace Tally

variable {visited pending rest : List NodeId} {id : NodeId}

theorem start : model.Tally [] [model.root] :=
  ⟨List.nodup_nil, by simp⟩

theorem step (tally : model.Tally visited (id :: rest)) (unseen : id ∉ visited) :
    model.Tally (id :: visited) ((model.listing id).reverse ++ rest) := by
  have moved : ((model.listing id).reverse ++ rest ++ id :: visited).Perm
      (model.listing id ++ (id :: rest ++ visited)) := by
    rw [List.append_assoc]
    exact (List.reverse_perm _).append List.perm_middle
  exact ⟨List.nodup_cons.mpr ⟨unseen, tally.distinct⟩,
    moved.trans ((tally.balance.append_left _).trans List.perm_middle)⟩

theorem inside (tally : model.Tally visited pending) (rooted : model.root < model.nodes.size)
    (closed : ∀ parent child, model.Lists parent child → child < model.nodes.size) :
    ∀ id ∈ pending ++ visited, id < model.nodes.size := by
  intro id member
  rcases List.mem_cons.mp (tally.balance.mem_iff.mp member) with rfl | below
  · exact rooted
  · obtain ⟨parent, _, listed⟩ := List.mem_flatMap.mp below
    exact closed parent id (mem_listing.mp listed)

/-- A pending node that has been visited is no root, and it has been listed as often as its one
parent lists it. -/
theorem shows_sharedNode (tally : model.Tally visited (id :: rest)) (again : id ∈ visited)
    (rooted : ∃ root, model.nodes[model.root]? = some root ∧ root.parent = none)
    (linked : ∀ parent child, model.Lists parent child →
      ∃ node, model.nodes[child]? = some node ∧ node.parent = some parent) :
    model.Shows (.sharedNode id) := by
  have met : 2 ≤ (model.root :: visited.flatMap model.listing).count id := by
    have pending : 0 < visited.count id := List.count_pos_iff.mpr again
    rw [← tally.balance.count_eq, List.cons_append, List.count_cons_self, List.count_append]
    omega
  have listed : 0 < (visited.flatMap model.listing).count id := by
    rw [List.count_cons] at met
    split at met <;> omega
  obtain ⟨parent, inVisited, member⟩ := List.mem_flatMap.mp (List.count_pos_iff.mp listed)
  obtain ⟨content, found, link⟩ := linked parent id (mem_listing.mp member)
  have unique : ∀ other, model.Lists other id → other = parent := by
    intro other lists
    obtain ⟨same, sameFound, otherLink⟩ := linked other id lists
    obtain rfl : content = same := by simpa [found] using sameFound
    simpa [link] using otherLink.symm
  have noRoot : model.root ≠ id := by
    intro same
    obtain ⟨root, rootFound, orphan⟩ := rooted
    obtain rfl : content = root := by simpa [same ▸ rootFound] using found.symm
    simp [orphan] at link
  -- Of the visited nodes only the parent lists the node, and it has been visited once.
  have total : (visited.flatMap model.listing).count id = (model.listing parent).count id := by
    rw [List.count_flatMap, List.sum_map_eq_nsmul_single parent,
      List.count_eq_one_of_mem tally.distinct inVisited, one_nsmul]
    · rfl
    · intro other apart _
      exact List.count_eq_zero.mpr fun listed => apart (unique other (mem_listing.mp listed))
  obtain ⟨holder, holderFound, _⟩ := mem_listing.mp member
  rw [List.count_cons_of_ne noRoot, total, listing, holderFound, Option.elim] at met
  exact ⟨content, parent, holder, found, link, holderFound, met, unique⟩

end Tally

/-- A search that fails has met a marked node, or it fails after it has marked another one. -/
theorem reach_fails_cases {steps : Nat} {seen : Array Bool} {pending : List NodeId}
    (failed : model.reach steps seen pending = .error defect) :
    ∃ id rest, pending = id :: rest ∧
      ((steps = 0 ∨ seen.getD id false = true) ∧ defect = .sharedNode id ∨
        ∃ left, steps = left + 1 ∧ seen.getD id false = false ∧
          model.reach left (seen.setIfInBounds id true) ((model.listing id).reverse ++ rest) =
            .error defect) := by
  cases pending with
  | nil => simp [reach] at failed
  | cons id rest =>
      refine ⟨id, rest, rfl, ?_⟩
      cases steps with
      | zero => exact .inl ⟨.inl rfl, by simpa [reach, eq_comm] using failed⟩
      | succ left =>
          by_cases marked : seen.getD id false = true
          · exact .inl ⟨.inr marked, by simpa [reach, marked, eq_comm] using failed⟩
          · rw [Bool.not_eq_true] at marked
            simp only [reach, marked, Bool.false_eq_true, if_false] at failed
            exact .inr ⟨left, rfl, marked, failed⟩

theorem reach_shows (rooted : ∃ root, model.nodes[model.root]? = some root ∧ root.parent = none)
    (linked : ∀ parent child, model.Lists parent child →
      ∃ node, model.nodes[child]? = some node ∧ node.parent = some parent)
    {steps : Nat} {seen : Array Bool} {visited pending : List NodeId}
    (tally : model.Tally visited pending) (size : seen.size = model.nodes.size)
    (marks : ∀ id, seen.getD id false = true ↔ id ∈ visited)
    (enough : model.nodes.size ≤ steps + visited.length)
    (failed : model.reach steps seen pending = .error defect) : model.Shows defect := by
  have inside := tally.inside (lt_size_of_found rooted.choose_spec.1) (closed_of_linked linked)
  induction steps generalizing seen visited pending with
  | zero =>
      obtain ⟨id, rest, rfl, ⟨_, rfl⟩ | ⟨left, positive, _⟩⟩ := reach_fails_cases failed
      · refine tally.shows_sharedNode ?_ rooted linked
        -- As many nodes have been visited as there are.
        by_contra unseen
        have bound := length_le_size (List.nodup_cons.mpr ⟨unseen, tally.distinct⟩)
          fun other member => inside other (List.cons_subset_cons id
            (List.subset_append_right rest visited) member)
        rw [List.length_cons] at bound
        omega
      · omega
  | succ steps ih =>
      obtain ⟨id, rest, rfl, ⟨again, rfl⟩ | ⟨left, same, unmarked, next⟩⟩ :=
        reach_fails_cases failed
      · exact tally.shows_sharedNode ((marks id).mp (again.resolve_left (by omega))) rooted linked
      · obtain rfl : steps = left := by omega
        have unseen : id ∉ visited := by
          rw [← marks, unmarked]
          decide
        have grown := tally.step unseen
        exact ih grown (by simpa using size)
          (marks_cons marks (size ▸ inside id (by simp)))
          (by rw [List.length_cons]; omega) next
          (grown.inside (lt_size_of_found rooted.choose_spec.1) (closed_of_linked linked))

/-- The marked nodes are those that are reached from the root. -/
theorem marked_iff_reaches
    (closed : ∀ parent child, model.Lists parent child → child < model.nodes.size)
    (rooted : model.root < model.nodes.size) {marked : Array Bool}
    (succeeded : model.reach model.nodes.size (Array.replicate model.nodes.size false)
      [model.root] = .ok marked) (id : NodeId) :
    marked.getD id false = true ↔ model.Reaches model.root id := by
  obtain ⟨forest, searched⟩ := reach_sound closed (by simp) (by simpa using rooted) succeeded
  obtain ⟨tree, rfl, same⟩ := List.map_eq_singleton_iff.mp searched.roots
  rw [searched.marks, getD_replicate, ← same, ← (searched.fit tree (by simp)).mem_preorder_iff]
  simp

theorem checkShape_shows
    (rooted : ∃ root, model.nodes[model.root]? = some root ∧ root.parent = none)
    (linked : ∀ parent child, model.Lists parent child →
      ∃ node, model.nodes[child]? = some node ∧ node.parent = some parent)
    (failed : model.checkShape = .error defect) : model.Shows defect := by
  unfold checkShape at failed
  cases search : model.reach model.nodes.size (Array.replicate model.nodes.size false)
      [model.root] with
  | error reason =>
      simp only [search, bind, Except.bind, Except.error.injEq] at failed
      subst failed
      refine reach_shows rooted linked .start (by simp) (fun id => ?_) (by simp) search
      rw [getD_replicate]
      simp
  | ok marked =>
      have size : marked.size = model.nodes.size := by simpa using size_of_reach search
      have reaches := marked_iff_reaches (closed_of_linked linked)
        (lt_size_of_found rooted.choose_spec.1) search
      simp only [search, bind, Except.bind] at failed
      cases first : marked.findIdx? (!·) with
      | none => simp [first] at failed
      | some node =>
          simp only [first, Except.error.injEq] at failed
          subst failed
          obtain ⟨inside, unmarked, before⟩ := Array.findIdx?_eq_some_iff_getElem.mp first
          refine ⟨size ▸ inside, ?_, fun id smaller => ?_⟩
          · rw [← reaches]
            simpa [Array.getD_eq_getD_getElem?, inside] using unmarked
          · rw [← reaches]
            have within : id < marked.size := Nat.lt_trans smaller inside
            simpa [Array.getD_eq_getD_getElem?, within] using before id smaller

theorem shows_of_check_eq_error (refused : model.check = .error defect) : model.Shows defect := by
  rcases Fallible.andThen_eq_error.mp refused with root | ⟨root, refused⟩
  · exact checkRoot_shows root
  · rcases Fallible.andThen_eq_error.mp refused with nodes | ⟨nodes, refused⟩
    · exact checkNodes_shows nodes
    · rcases Fallible.andThen_eq_error.mp refused with shape | ⟨_, symbols⟩
      · exact checkShape_shows (checkRoot_eq_ok.mp root) (checkNodes_eq_ok.mp nodes).1 shape
      · exact checkSymbols_shows symbols

/-- Of a tree it can only be said that a reference has nothing behind it. -/
theorem Shows.dangling (shows : model.Shows defect)
    (rooted : ∃ root, model.nodes[model.root]? = some root ∧ root.parent = none)
    (linked : ∀ parent child, model.Lists parent child →
      ∃ node, model.nodes[child]? = some node ∧ node.parent = some parent)
    (distinct : ∀ (id : NodeId) (node : Node), model.nodes[id]? = some node → node.children.Nodup)
    (reached : ∀ id < model.nodes.size, model.Reaches model.root id) :
    (∃ symbol, defect = .danglingSymbol symbol) ∨
      ∃ node referencedBy, defect = .danglingNode node referencedBy := by
  cases defect with
  | danglingSymbol symbol => exact .inl ⟨symbol, rfl⟩
  | danglingNode node referencedBy => exact .inr ⟨node, referencedBy, rfl⟩
  | missingRoot =>
      obtain ⟨root, found, orphan⟩ := rooted
      rcases shows with outside | ⟨other, parent, otherFound, bound⟩
      · exact absurd (lt_size_of_found found) (Nat.not_lt.mpr outside)
      · obtain rfl : root = other := by simpa [found] using otherFound
        simp [orphan] at bound
  | parentMismatch node expected found =>
      obtain ⟨lists, differs, content, contentFound, rfl⟩ := shows
      obtain ⟨same, sameFound, link⟩ := linked expected node lists
      obtain rfl : content = same := by simpa [contentFound] using sameFound
      exact absurd link differs
  | unreachable node => exact absurd (reached node shows.1) shows.2.1
  | sharedNode node =>
      obtain ⟨_, parent, holder, _, _, found, twice, _⟩ := shows
      have once := List.nodup_iff_count_le_one.mp (distinct parent holder found) node
      omega

/-- No defect can be said of a tree with closed references. -/
theorem Shows.not_wellFormed (shows : model.Shows defect) : ¬ model.WellFormed := by
  intro wellFormed
  rcases shows.dangling wellFormed.rooted wellFormed.linked wellFormed.distinct
    wellFormed.reached with ⟨symbol, rfl⟩ | ⟨node, referencedBy, rfl⟩
  · obtain ⟨outside, ⟨id, node, found, refers⟩ | ⟨id, holder, found, isSome⟩⟩ := shows
    · exact Nat.not_lt.mpr outside (wellFormed.nodeSymbols id node found symbol refers)
    · exact Nat.not_lt.mpr outside (wellFormed.containers id holder found symbol isSome)
  · obtain ⟨outside, lists | ⟨_, id, symbol, found, declared⟩⟩ := shows
    · exact Nat.not_lt.mpr outside (closed_of_linked wellFormed.linked _ _ lists)
    · exact Nat.not_lt.mpr outside (wellFormed.declarations id symbol found node declared)

/-- The defect that a model is refused with is there, and a model is accepted exactly if no defect
is. -/
theorem check_names_shown_defect (model : Model) :
    (∀ defect, model.check = .error defect → model.Shows defect) ∧
    (model.check = .ok () ↔ ∀ defect, ¬ model.Shows defect) := by
  refine ⟨fun defect => shows_of_check_eq_error, fun accepted defect shows => ?_,
    fun spotless => ?_⟩
  · exact shows.not_wellFormed (wellFormed_of_check accepted)
  · cases checked : model.check with
    | ok => rfl
    | error defect => exact absurd (shows_of_check_eq_error checked) (spotless defect)

end ModelLint.Model
