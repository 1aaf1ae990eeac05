import ModelLint.Proofs.Model.Ancestry

namespace ModelLint.Model

/-! Calls, scopes and enclosing objects of an accepted model, said without a search. -/

open Fallible

/-- The name that a callee gives, either alone or behind the receiver that it is a
member of. -/
inductive Callee (model : Model) (callee : NodeId) : NodeId → Option NodeId → Prop where
  | plain {node : Node} (found : model.nodes[callee]? = some node)
      (isName : node.kind = .identifier) : Callee model callee callee none
  | member {node : Node} {receiver member : NodeId} {others : List NodeId}
      (found : model.nodes[callee]? = some node) (isAccess : node.kind = .memberAccess)
      (parts : node.children = receiver :: member :: others) :
      Callee model callee member (some receiver)

def ChildAt (model : Model) (id : NodeId) (position : Nat) (child : NodeId) : Prop :=
  ∃ node, model.nodes[id]? = some node ∧ node.children[position]? = some child

def Resolves (model : Model) (id : NodeId) (symbol : SymbolId) : Prop :=
  ∃ node, model.nodes[id]? = some node ∧ node.symbol = some symbol

/-- What an invocation calls: the method that its callee names. -/
def Calls (model : Model) (invocation : NodeId) (call : Call) (method : Symbol) : Prop :=
  ∃ callee name, model.ChildAt invocation 0 callee ∧ model.Callee callee name call.receiver ∧
    model.Resolves name call.method ∧ model.symbols[call.method]? = some method ∧
    method.kind = .method

def Names (model : Model) (id : NodeId) (symbol : SymbolId) : Prop :=
  ∃ node, model.nodes[id]? = some node ∧ node.kind = .identifier ∧ node.symbol = some symbol

/-- The first block among the children holds the statements. -/
def HasBody (model : Model) (id body : NodeId) : Prop :=
  ∃ node, model.nodes[id]? = some node ∧
    node.children.find? (model.Has (·.kind = .block)) = some body

/-- The innermost object around a node, which may be the node itself. -/
def EnclosingObject (model : Model) (id : NodeId) : NodeId → Prop :=
  model.Innermost fun outer =>
    model.Has (·.kind.objectKind?.isSome) outer = true ∧ model.Reaches outer id

def DeclaresObsolete (model : Model) (id : NodeId) : Prop :=
  ∃ node declared symbol, model.nodes[id]? = some node ∧ node.declares = some declared ∧
    model.symbols[declared]? = some symbol ∧ symbol.isObsolete = true

def InObsoleteObject (model : Model) (id : NodeId) : Prop :=
  ∃ object, model.EnclosingObject id object ∧ model.DeclaresObsolete object

/-- The innermost `with` statement around a node and below another one. -/
def EnclosingWith (model : Model) (body id : NodeId) : NodeId → Prop :=
  model.Innermost fun outer => model.Has (·.kind = .withStatement) outer = true ∧
    model.Encloses body outer ∧ model.Encloses outer id

def WithTarget (model : Model) (body id target : NodeId) : Prop :=
  ∃ holder node, model.EnclosingWith body id holder ∧ model.nodes[holder]? = some node ∧
    node.children.head? = some target

variable {model : Model} {id body : NodeId}

theorem symbol_of_lt_size {id : SymbolId} (inside : id < model.symbols.size) :
    ∃ symbol, model.symbols[id]? = some symbol :=
  ⟨_, Array.getElem?_eq_getElem inside⟩

theorem WellFormed.enclosed_collects {α : Type} (wellFormed : model.WellFormed)
    {find : NodeId → Except MissingId (List α)} {fits : NodeId → α → Prop} {tree : Tree}
    (fitsTree : tree.Fits model)
    (each : ∀ id, model.Encloses tree.id id → id < model.nodes.size →
      Collects (find id) (fits id)) :
    Collects (gather find (Tree.nodes tree.branches)) fun value =>
      ∃ id, model.Encloses tree.id id ∧ fits id value := by
  have inside : tree.id < model.nodes.size := lt_size_of_found fitsTree.found
  obtain ⟨found, gathered, exact⟩ := gather_collects fun id member =>
    have encloses := fitsTree.mem_nodes_branches_iff.mp member
    each id encloses (lt_size_of_reaches wellFormed inside encloses.to_reflTransGen)
  refine ⟨found, gathered, fun value => ?_⟩
  simp only [exact, fitsTree.mem_nodes_branches_iff]

theorem identifierSymbol_finds (inside : id < model.nodes.size) :
    Finds (model.identifierSymbol id) (model.Names id) := by
  obtain ⟨node, found⟩ := found_of_lt_size inside
  refine ⟨if node.kind = .identifier then node.symbol else none, ?_, fun symbol => ?_⟩
  · simp [identifierSymbol, node_eq_ok found, bind, Except.bind, pure, Except.pure]
  · by_cases isName : node.kind = .identifier <;> simp [Names, found, isName]

theorem body_finds (wellFormed : model.WellFormed) (inside : id < model.nodes.size) :
    Finds (model.body id) (model.HasBody id) := by
  obtain ⟨node, found⟩ := found_of_lt_size inside
  have childrenInside : ∀ child ∈ node.children, child < model.nodes.size := fun child member =>
    closed_of_linked wellFormed.linked id child ⟨node, found, member⟩
  refine ⟨node.children.find? (model.Has (·.kind = .block)), ?_, fun block => ?_⟩
  · simp only [body, children_eq_ok found, bind, Except.bind]
    exact findNode_eq_ok childrenInside
  · simp [HasBody, found]

theorem HasBody.inside (wellFormed : model.WellFormed) (hasBody : model.HasBody id body) :
    body < model.nodes.size := by
  obtain ⟨node, found, first⟩ := hasBody
  exact closed_of_linked wellFormed.linked id body ⟨node, found, List.mem_of_find?_eq_some first⟩

theorem HasBody.unique {other : NodeId} (first : model.HasBody id body)
    (second : model.HasBody id other) : body = other := by
  obtain ⟨node, found, isFirst⟩ := first
  obtain ⟨again, againFound, isSecond⟩ := second
  obtain rfl : node = again := by simpa [found] using againFound
  simpa [isFirst] using isSecond

theorem HasBody.isBlock (hasBody : model.HasBody id body) :
    model.Has (·.kind = .block) body = true := by
  obtain ⟨_, _, first⟩ := hasBody
  exact List.find?_some first

theorem enclosingObject_finds (wellFormed : model.WellFormed) (inside : id < model.nodes.size) :
    Finds (model.enclosingObject id) (model.EnclosingObject id) := by
  obtain ⟨line, above⟩ := wellFormed.line inside
  refine ⟨(id :: line).find? (model.Has (·.kind.objectKind?.isSome)), ?_, fun object => ?_⟩
  · simp only [enclosingObject, above.ancestorsAndSelf_eq_ok wellFormed, bind, Except.bind]
    exact findNode_eq_ok (above.inside_self wellFormed)
  · rw [find?_line_iff wellFormed (above.pairwise_self wellFormed), EnclosingObject]
    have around (outer : NodeId) : outer ∈ id :: line ↔ model.Reaches outer id := by
      rw [List.mem_cons, above.mem_iff wellFormed, Reaches,
        Relation.reflTransGen_iff_eq_or_transGen, eq_comm]
      rfl
    simp only [Innermost, around, and_comm]

theorem declaresObsolete_decides (wellFormed : model.WellFormed)
    (inside : id < model.nodes.size) :
    Decides (model.declaresObsolete id) (model.DeclaresObsolete id) := by
  obtain ⟨node, found⟩ := found_of_lt_size inside
  cases declared : node.declares with
  | none =>
      refine ⟨false, ?_, by simp [DeclaresObsolete, found, declared]⟩
      simp [declaresObsolete, node_eq_ok found, declared, bind, Except.bind, pure, Except.pure]
  | some symbol =>
      obtain ⟨declaredSymbol, known⟩ :=
        symbol_of_lt_size (wellFormed.nodeSymbols id node found symbol (.inr declared))
      refine ⟨declaredSymbol.isObsolete, ?_, ?_⟩
      · simp only [declaresObsolete, node_eq_ok found, declared, symbol_eq_ok known, bind,
          Except.bind, pure, Except.pure]
      · simp [DeclaresObsolete, found, declared, known]

theorem inObsoleteObject_decides (wellFormed : model.WellFormed)
    (inside : id < model.nodes.size) :
    Decides (model.inObsoleteObject id) (model.InObsoleteObject id) := by
  rcases (enclosingObject_finds wellFormed inside).cases with
    ⟨none, absent⟩ | ⟨object, some, encloses, unique⟩
  · refine ⟨false, ?_, by simp [InObsoleteObject, absent]⟩
    simp [inObsoleteObject, none, bind, Except.bind, pure, Except.pure]
  · obtain ⟨node, found, _⟩ := has_iff.mp encloses.1.1
    obtain ⟨flag, answered, obsolete⟩ :=
      declaresObsolete_decides wellFormed (lt_size_of_found found)
    refine ⟨flag, by simp [inObsoleteObject, some, answered, bind, Except.bind], ?_⟩
    rw [obsolete]
    constructor
    · intro declares
      exact ⟨object, encloses, declares⟩
    · intro inObsolete
      obtain ⟨other, otherEncloses, declares⟩ := inObsolete
      rwa [← unique other otherEncloses]

theorem child?_finds (position : Nat) (inside : id < model.nodes.size) :
    Finds (model.child? id position) (model.ChildAt id position) := by
  obtain ⟨node, found⟩ := found_of_lt_size inside
  exact ⟨_, child?_eq_ok found position, fun child => by simp [ChildAt, found]⟩

theorem resolvedId_finds (inside : id < model.nodes.size) :
    Finds (model.resolvedId id) (model.Resolves id) := by
  obtain ⟨node, found⟩ := found_of_lt_size inside
  exact ⟨_, resolvedId_eq_ok found, fun symbol => by simp [Resolves, found]⟩

theorem ChildAt.inside (wellFormed : model.WellFormed) {position : Nat} {child : NodeId}
    (childAt : model.ChildAt id position child) : child < model.nodes.size := by
  obtain ⟨node, found, member⟩ := childAt
  exact closed_of_linked wellFormed.linked id child ⟨node, found, List.mem_of_getElem? member⟩

theorem ChildAt.lists {position : Nat} {child : NodeId}
    (childAt : model.ChildAt id position child) :
    model.Lists id child := by
  obtain ⟨node, found, listed⟩ := childAt
  exact ⟨node, found, List.mem_of_getElem? listed⟩

theorem ChildAt.first {node : Node} {child : NodeId} (childAt : model.ChildAt id 0 child)
    (found : model.nodes[id]? = some node) : ∃ others, node.children = child :: others := by
  obtain ⟨again, againFound, listed⟩ := childAt
  obtain rfl : node = again := by simpa [found] using againFound
  exact List.head?_eq_some_iff.mp (List.head?_eq_getElem? ▸ listed)

theorem Resolves.inside (wellFormed : model.WellFormed) {symbol : SymbolId}
    (resolves : model.Resolves id symbol) : symbol < model.symbols.size := by
  obtain ⟨node, found, resolved⟩ := resolves
  exact wellFormed.nodeSymbols id node found symbol (.inl resolved)

theorem calleeParts_finds (inside : id < model.nodes.size) :
    Finds (model.calleeParts id) fun parts => model.Callee id parts.1 parts.2 := by
  obtain ⟨node, found⟩ := found_of_lt_size inside
  simp only [calleeParts, node_eq_ok found, bind, Except.bind, pure, Except.pure]
  split
  · rename_i receiver member others isAccess parts
    refine finds_some (.member found isAccess parts) fun other callee => ?_
    obtain ⟨name, holder⟩ := other
    cases callee with
    | plain again isName => simp_all
    | member again _ otherParts => simp_all
  · rename_i isName
    refine finds_some (.plain found isName) fun other callee => ?_
    obtain ⟨name, holder⟩ := other
    cases callee with
    | plain => rfl
    | member again isAccess otherParts => simp_all
  · rename_i noAccess noName
    refine finds_none fun other callee => ?_
    obtain ⟨name, holder⟩ := other
    cases callee with
    | plain again isName => simp_all
    | member again isAccess otherParts => simp_all

theorem Callee.inside (wellFormed : model.WellFormed) {callee name : NodeId}
    {receiver : Option NodeId} (parts : model.Callee callee name receiver) :
    name < model.nodes.size := by
  cases parts with
  | plain found _ => exact lt_size_of_found found
  | member found _ parts =>
      exact closed_of_linked wellFormed.linked _ _ ⟨_, found, by rw [parts]; simp⟩

theorem ifMethod_finds {method : SymbolId} (receiver : Option NodeId)
    (inside : method < model.symbols.size) :
    Finds (do if (← model.symbol method).kind = .method then return some (⟨method, receiver⟩ : Call)
              else return none)
      fun call => ∃ symbol, call = ⟨method, receiver⟩ ∧ model.symbols[call.method]? = some symbol ∧
        symbol.kind = .method := by
  obtain ⟨symbol, known⟩ := symbol_of_lt_size inside
  simp only [symbol_eq_ok known, bind, Except.bind, pure, Except.pure]
  by_cases isMethod : symbol.kind = .method
  · simp only [isMethod, if_true]
    refine finds_some ⟨symbol, rfl, known, isMethod⟩ fun call given => ?_
    obtain ⟨_, same, _⟩ := given
    exact same
  · simp only [isMethod, if_false]
    refine finds_none fun call given => ?_
    obtain ⟨other, rfl, otherKnown, otherIsMethod⟩ := given
    simp_all

theorem call_finds (wellFormed : model.WellFormed) (inside : id < model.nodes.size) :
    Finds (model.call id) fun call => ∃ method, model.Calls id call method := by
  unfold call
  refine Finds.congr (Finds.andThen (child?_finds 0 inside) rfl fun callee first =>
    Finds.andThen (calleeParts_finds (first.inside wellFormed)) rfl fun parts callee =>
      Finds.andThen (resolvedId_finds (callee.inside wellFormed)) rfl fun method resolved =>
        ifMethod_finds parts.2 (resolved.inside wellFormed)) fun call => ?_
  constructor
  · intro given
    obtain ⟨callee, first, ⟨name, _⟩, parts, _, resolved, symbol, rfl, known, isMethod⟩ := given
    exact ⟨symbol, callee, name, first, parts, resolved, known, isMethod⟩
  · intro given
    obtain ⟨symbol, callee, name, first, parts, resolved, known, isMethod⟩ := given
    exact ⟨callee, first, (name, call.receiver), parts, call.method, resolved, symbol, rfl, known,
      isMethod⟩

theorem ifBuiltin_finds {call : Call} (inside : call.method < model.symbols.size) :
    Finds (do let method ← model.symbol call.method
              if method.builtin then return some (call, method) else return none)
      fun pair => pair.1 = call ∧ model.symbols[call.method]? = some pair.2 ∧
        pair.2.builtin = true := by
  obtain ⟨symbol, known⟩ := symbol_of_lt_size inside
  simp only [symbol_eq_ok known, bind, Except.bind, pure, Except.pure]
  cases provided : symbol.builtin with
  | true =>
      refine finds_some ⟨rfl, known, provided⟩ fun pair given => ?_
      obtain ⟨other, method⟩ := pair
      obtain ⟨rfl, otherKnown, _⟩ := given
      simp_all
  | false =>
      refine finds_none fun pair given => ?_
      obtain ⟨other, method⟩ := pair
      obtain ⟨rfl, otherKnown, otherProvided⟩ := given
      simp_all

theorem Calls.inside {call : Call} {method : Symbol} (calls : model.Calls id call method) :
    call.method < model.symbols.size := by
  obtain ⟨_, _, _, _, _, known, _⟩ := calls
  exact (Array.getElem?_eq_some_iff.mp known).1

theorem builtinCall_finds (wellFormed : model.WellFormed) (inside : id < model.nodes.size) :
    Finds (model.builtinCall id) fun pair =>
      model.Calls id pair.1 pair.2 ∧ pair.2.builtin = true := by
  unfold builtinCall
  refine Finds.congr (Finds.andThen (call_finds wellFormed inside) rfl fun call calls =>
    ifBuiltin_finds calls.choose_spec.inside) fun pair => ?_
  constructor
  · intro given
    obtain ⟨_, ⟨method, callee, name, first, parts, resolved, known, isMethod⟩, rfl, again,
      provided⟩ := given
    obtain rfl : method = pair.2 := by simpa [known] using again
    exact ⟨⟨callee, name, first, parts, resolved, known, isMethod⟩, provided⟩
  · intro given
    obtain ⟨calls, provided⟩ := given
    have ⟨_, _, _, _, _, known, _⟩ := calls
    exact ⟨pair.1, ⟨pair.2, calls⟩, rfl, known, provided⟩

theorem withTargetAmong_eq_ok {ids : List NodeId} (inside : ∀ id ∈ ids, id < model.nodes.size) :
    model.withTargetAmong ids = .ok (do
      let holder ← ids.find? (model.Has (·.kind = .withStatement))
      let node ← model.nodes[holder]?
      node.children.head?) := by
  induction ids with
  | nil => rfl
  | cons id rest ih =>
      obtain ⟨node, found⟩ := found_of_lt_size (inside id (by simp))
      have later := ih fun other member => inside other (List.mem_cons_of_mem _ member)
      simp only [withTargetAmong, node_eq_ok found, bind, Except.bind]
      by_cases isWith : node.kind = .withStatement
      · simp [isWith, Has, found, pure, Except.pure]
      · simp only [isWith, if_false, later]
        simp [Has, found, isWith]

/-- Up to a node above, the line holds what lies between. -/
theorem Line.takeWhile_eq (wellFormed : model.WellFormed) {line : List NodeId}
    (above : model.Line id line) (encloses : model.Encloses body id) :
    ∃ before, line.takeWhile (· ≠ body) = before ∧
      (before.Pairwise fun near far => model.Encloses far near) ∧
      ∀ outer, outer ∈ before ↔ model.Encloses body outer ∧ model.Encloses outer id := by
  obtain ⟨before, after, rfl⟩ := List.append_of_mem ((above.mem_iff wellFormed).mpr encloses)
  have nested := List.pairwise_append.mp (above.pairwise wellFormed)
  have enclosed (outer : NodeId) (member : outer ∈ before) : model.Encloses body outer :=
    nested.2.2 outer member body (by simp)
  refine ⟨before, ?_, nested.1, fun outer => ⟨fun member => ⟨enclosed outer member, ?_⟩, ?_⟩⟩
  · have differs : ∀ outer ∈ before, decide (outer ≠ body) = true := by
      intro outer member
      simp only [decide_eq_true_eq]
      intro same
      subst same
      exact not_encloses_self wellFormed (enclosed outer member)
    rw [List.takeWhile_append_of_pos differs]
    simp
  · exact (above.mem_iff wellFormed).mp (by simp [member])
  · intro between
    obtain ⟨inBody, outside⟩ := between
    have member := (above.mem_iff wellFormed).mpr outside
    rcases List.mem_append.mp member with inBefore | inAfter
    · exact inBefore
    · rcases List.mem_cons.mp inAfter with rfl | further
      · exact absurd inBody (not_encloses_self wellFormed)
      · have around : model.Encloses outer body := List.rel_of_pairwise_cons nested.2.1 further
        exact absurd (inBody.trans around) (not_encloses_self wellFormed)

theorem withTarget_finds (wellFormed : model.WellFormed) (inside : id < model.nodes.size)
    (encloses : model.Encloses body id) :
    Finds (model.withTarget id body) (model.WithTarget body id) := by
  obtain ⟨line, above⟩ := wellFormed.line inside
  obtain ⟨before, cut, nested, between⟩ := above.takeWhile_eq wellFormed encloses
  simp only [withTarget, above.ancestors_eq_ok wellFormed, bind, Except.bind, cut]
  rw [withTargetAmong_eq_ok fun outer member => ((between outer).mp member).2.inside]
  refine ⟨_, rfl, fun target => ?_⟩
  have innermost (holder : NodeId) :
      before.find? (model.Has (·.kind = .withStatement)) = some holder ↔
        model.EnclosingWith body id holder := by
    rw [find?_line_iff wellFormed nested, EnclosingWith]
    simp only [Innermost, between, and_comm]
  simp only [Option.bind_eq_bind, Option.bind_eq_some_iff, innermost, WithTarget]
  simp only [exists_and_left]

/-- Among the `with` statements around a node there is a nearest one. -/
theorem enclosingWith_exists (wellFormed : model.WellFormed) {outer : NodeId}
    (isWith : model.Has (·.kind = .withStatement) outer = true)
    (inBody : model.Encloses body outer) (around : model.Encloses outer id)
    (inside : id < model.nodes.size) : ∃ holder, model.EnclosingWith body id holder := by
  obtain ⟨line, above⟩ := wellFormed.line inside
  obtain ⟨before, _, nested, between⟩ := above.takeWhile_eq wellFormed (inBody.trans around)
  have member := (between outer).mpr ⟨inBody, around⟩
  obtain ⟨holder, found⟩ := Option.isSome_iff_exists.mp
    (List.find?_isSome.mpr ⟨outer, member, isWith⟩)
  obtain ⟨⟨among, isHolder⟩, innermost⟩ := (find?_line_iff wellFormed nested).mp found
  refine ⟨holder, ⟨isHolder, (between holder).mp among⟩, fun other given => ?_⟩
  exact innermost other ⟨(between other).mpr given.2, given.1⟩

theorem WithTarget.inside (wellFormed : model.WellFormed) {target : NodeId}
    (scope : model.WithTarget body id target) : target < model.nodes.size := by
  obtain ⟨holder, node, _, found, first⟩ := scope
  exact closed_of_linked wellFormed.linked _ _ ⟨node, found, List.mem_of_mem_head? first⟩

end ModelLint.Model
