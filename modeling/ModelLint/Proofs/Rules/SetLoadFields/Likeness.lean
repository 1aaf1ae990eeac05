import ModelLint.Proofs.Rules.SetLoadFields.Events

namespace ModelLint

/-! Bodies that the rule cannot tell apart.

Two models are alike below a node if they have the same symbols and if each node below it has the
same kind, the same place, the same symbol and the same children in both; only in a block may the
children stand in another order. All that the rule asks about a node of the body then has the same
answer in both models: it looks around the node, but never beyond the body, and the position of a
child counts in no block. -/

structure Node.Alike (left right : Node) : Prop where
  kind : left.kind = right.kind
  span : left.span = right.span
  symbol : left.symbol = right.symbol
  reordered : left.children.Perm right.children
  children : left.kind ≠ .block → left.children = right.children

theorem Node.Alike.symm {left right : Node} (alike : left.Alike right) : right.Alike left :=
  ⟨alike.kind.symm, alike.span.symm, alike.symbol.symm, alike.reordered.symm,
    fun notBlock => (alike.children (alike.kind ▸ notBlock)).symm⟩

namespace Model

variable {model left right : Model} {body id : NodeId}

theorem Callee.reached (reached : model.Reaches body id) {name : NodeId}
    {receiver : Option NodeId} (callee : model.Callee id name receiver) :
    model.Reaches body name ∧ ∀ target, receiver = some target → model.Reaches body target := by
  cases callee with
  | plain => exact ⟨reached, by simp⟩
  | member found _ parts =>
      refine ⟨reached.tail ⟨_, found, by simp [parts]⟩, fun target same => ?_⟩
      cases same
      exact reached.tail ⟨_, found, by simp [parts]⟩

theorem WithTarget.reached {target : NodeId} (scope : model.WithTarget body id target) :
    model.Reaches body target := by
  obtain ⟨holder, node, nearest, found, first⟩ := scope
  exact nearest.1.2.1.to_reflTransGen.tail ⟨node, found, List.mem_of_mem_head? first⟩

structure Alike (left right : Model) (body : NodeId) : Prop where
  formed : left.WellFormed
  otherFormed : right.WellFormed
  symbols : left.symbols = right.symbols
  nodes : ∀ id, left.Reaches body id → ∃ node other,
    left.nodes[id]? = some node ∧ right.nodes[id]? = some other ∧ node.Alike other

namespace Alike

theorem node (alike : left.Alike right body) {node : Node} (reached : left.Reaches body id)
    (found : left.nodes[id]? = some node) :
    ∃ other, right.nodes[id]? = some other ∧ node.Alike other := by
  obtain ⟨again, other, foundAgain, otherFound, same⟩ := alike.nodes id reached
  obtain rfl : node = again := by simpa [found] using foundAgain
  exact ⟨other, otherFound, same⟩

theorem lists_iff (alike : left.Alike right body) {child : NodeId}
    (reached : left.Reaches body id) : left.Lists id child ↔ right.Lists id child := by
  obtain ⟨node, other, found, otherFound, same⟩ := alike.nodes id reached
  simp [Lists, found, otherFound, same.reordered.mem_iff]

theorem reaches_iff (alike : left.Alike right body) {outer inner : NodeId}
    (reached : left.Reaches body outer) :
    left.Reaches outer inner ↔ right.Reaches outer inner := by
  constructor
  · intro way
    induction way with
    | refl => exact .refl
    | tail way lists ih => exact ih.tail ((alike.lists_iff (reached.trans way)).mp lists)
  · intro way
    induction way with
    | refl => exact .refl
    | tail _ lists ih => exact ih.tail ((alike.lists_iff (reached.trans ih)).mpr lists)

theorem encloses_iff (alike : left.Alike right body) {outer inner : NodeId}
    (reached : left.Reaches body outer) :
    left.Encloses outer inner ↔ right.Encloses outer inner := by
  simp only [Encloses, Relation.TransGen.head'_iff]
  refine exists_congr fun child => ?_
  rw [alike.lists_iff reached]
  refine and_congr_right fun lists => alike.reaches_iff (reached.tail ?_)
  exact (alike.lists_iff reached).mpr lists

theorem symm (alike : left.Alike right body) : right.Alike left body where
  formed := alike.otherFormed
  otherFormed := alike.formed
  symbols := alike.symbols.symm
  nodes id reached := by
    obtain ⟨node, other, found, otherFound, same⟩ :=
      alike.nodes id ((alike.reaches_iff .refl).mpr reached)
    exact ⟨other, node, otherFound, found, same.symm⟩

theorem has (alike : left.Alike right body) (reached : left.Reaches body id) {kind : NodeKind}
    (isKind : left.Has (·.kind = kind) id = true) : right.Has (·.kind = kind) id = true := by
  obtain ⟨node, found, accepted⟩ := has_iff.mp isKind
  obtain ⟨other, otherFound, same⟩ := alike.node reached found
  rw [has_kind_iff otherFound, ← same.kind]
  simpa using accepted

theorem resolves (alike : left.Alike right body) (reached : left.Reaches body id)
    {symbol : SymbolId} (given : left.Resolves id symbol) : right.Resolves id symbol := by
  obtain ⟨node, found, refers⟩ := given
  obtain ⟨other, otherFound, same⟩ := alike.node reached found
  exact ⟨other, otherFound, by rw [← same.symbol, refers]⟩

theorem childAt (alike : left.Alike right body) (reached : left.Reaches body id)
    {kind : NodeKind} (isKind : left.Has (·.kind = kind) id = true) (notBlock : kind ≠ .block)
    {position : Nat} {child : NodeId} (given : left.ChildAt id position child) :
    right.ChildAt id position child := by
  obtain ⟨node, found, listed⟩ := given
  obtain ⟨other, otherFound, same⟩ := alike.node reached found
  refine ⟨other, otherFound, ?_⟩
  rwa [← same.children ((has_kind_iff found).mp isKind ▸ notBlock)]

theorem callee (alike : left.Alike right body) (reached : left.Reaches body id) {name : NodeId}
    {receiver : Option NodeId} (given : left.Callee id name receiver) :
    right.Callee id name receiver := by
  cases given with
  | plain found isName =>
      obtain ⟨other, otherFound, same⟩ := alike.node reached found
      exact .plain otherFound (by rw [← same.kind, isName])
  | member found isAccess parts =>
      obtain ⟨other, otherFound, same⟩ := alike.node reached found
      have otherParts := same.children (by simp [isAccess])
      exact .member otherFound (by rw [← same.kind, isAccess]) (otherParts.symm.trans parts)

theorem calls (alike : left.Alike right body) (reached : left.Reaches body id)
    (isInvocation : left.Has (·.kind = .invocation) id = true) {call : Call} {method : Symbol}
    (given : left.Calls id call method) : right.Calls id call method := by
  obtain ⟨callee, name, first, parts, resolves, known, isMethod⟩ := given
  have calleeReached := reached.tail first.lists
  exact ⟨callee, name, alike.childAt reached isInvocation (by decide) first,
    alike.callee calleeReached parts, alike.resolves (parts.reached calleeReached).1 resolves,
    alike.symbols ▸ known, isMethod⟩

theorem enclosingWith (alike : left.Alike right body) {holder : NodeId}
    (given : left.EnclosingWith body id holder) : right.EnclosingWith body id holder := by
  obtain ⟨⟨isWith, inBody, around⟩, innermost⟩ := given
  have reached := inBody.to_reflTransGen
  refine ⟨⟨alike.has reached isWith, (alike.encloses_iff .refl).mp inBody,
    (alike.encloses_iff reached).mp around⟩, fun other given => ?_⟩
  obtain ⟨otherIsWith, otherInBody, otherAround⟩ := given
  have otherEnclosed := (alike.encloses_iff .refl).mpr otherInBody
  have otherReached := otherEnclosed.to_reflTransGen
  refine (alike.reaches_iff otherReached).mp (innermost other ⟨?_, otherEnclosed, ?_⟩)
  · exact alike.symm.has otherInBody.to_reflTransGen otherIsWith
  · exact (alike.encloses_iff otherReached).mpr otherAround

theorem withTarget (alike : left.Alike right body) {target : NodeId}
    (given : left.WithTarget body id target) : right.WithTarget body id target := by
  obtain ⟨holder, node, nearest, found, first⟩ := given
  obtain ⟨other, otherFound, same⟩ := alike.node nearest.1.2.1.to_reflTransGen found
  refine ⟨holder, other, alike.enclosingWith nearest, otherFound, ?_⟩
  rwa [← same.children (by simp [(has_kind_iff found).mp nearest.1.1])]

end Alike

end Model

namespace Rules.SetLoadFields

variable {left right : Model} {body id : NodeId}

theorem Tracks.alike (alike : left.Alike right body) (reached : left.Reaches body id)
    {record : SymbolId} (tracks : Tracks left id record) : Tracks right id record :=
  ⟨alike.resolves reached tracks.1, alike.symbols ▸ tracks.2⟩

theorem RefersToField.alike (alike : left.Alike right body) (reached : left.Reaches body id)
    {field : SymbolId} (refers : RefersToField left id field) : RefersToField right id field :=
  ⟨alike.resolves reached refers.1, alike.symbols ▸ refers.2⟩

theorem Invokes.alike (alike : left.Alike right body) (reached : left.Reaches body id)
    {call : Model.Call} {method : Symbol} (invokes : Invokes left id call method) :
    Invokes right id call method :=
  ⟨alike.has reached invokes.1, alike.calls reached invokes.1 invokes.2.1, invokes.2.2⟩

/-- The receiver of a call in the body is in the body itself. -/
theorem Receives.reached (reached : left.Reaches body id) {call : Model.Call} {method : Symbol}
    {receiver : NodeId} (invokes : Invokes left id call method)
    (receives : Receives left body id call receiver) : left.Reaches body receiver := by
  rcases receives with explicit | ⟨_, scope⟩
  · obtain ⟨callee, name, first, parts, _⟩ := invokes.2.1
    exact (parts.reached (reached.tail first.lists)).2 receiver explicit
  · exact scope.reached

theorem Receives.alike (alike : left.Alike right body) {call : Model.Call} {receiver : NodeId}
    (receives : Receives left body id call receiver) : Receives right body id call receiver :=
  receives.imp_right fun given => ⟨given.1, alike.withTarget given.2⟩

theorem Transfers.alike (alike : left.Alike right body) (reached : left.Reaches body id)
    {record : SymbolId} (transfers : Transfers left body id record) :
    Transfers right body id record := by
  obtain ⟨call, method, invokes, isTransfer, takesPart⟩ := transfers
  refine ⟨call, method, invokes.alike alike reached, isTransfer, ?_⟩
  rcases takesPart with ⟨receiver, receives, tracks⟩ | ⟨position, argument, childAt, tracks⟩
  · exact .inl ⟨receiver, receives.alike alike,
      tracks.alike alike (receives.reached reached invokes)⟩
  · exact .inr ⟨position, argument, alike.childAt reached invokes.1 (by decide) childAt,
      tracks.alike alike (reached.tail childAt.lists)⟩

/-- What has an enclosed node for its member is in the body as well. -/
theorem IsMember.alike (alike : left.Alike right body) (encloses : left.Encloses body id)
    (isMember : IsMember left id) : IsMember right id := by
  obtain ⟨access, isAccess, second⟩ := isMember
  obtain ⟨parent, reached, lists⟩ := Relation.TransGen.tail'_iff.mp encloses
  obtain rfl := lists.unique alike.formed second.lists
  exact ⟨parent, alike.has reached isAccess, alike.childAt reached isAccess (by decide) second⟩

theorem UsesField.alike (alike : left.Alike right body) (encloses : left.Encloses body id)
    {use : FieldUse} (uses : UsesField left body id use) : UsesField right body id use := by
  have reached := encloses.to_reflTransGen
  cases uses with
  | access isAccess first second tracks refers =>
      exact .access (alike.has reached isAccess)
        (alike.childAt reached isAccess (by decide) first)
        (alike.childAt reached isAccess (by decide) second)
        (tracks.alike alike (reached.tail first.lists))
        (refers.alike alike (reached.tail second.lists))
  | bare isName alone refers scope tracks =>
      -- That a name is no member has to be carried over backwards.
      have otherAlone : ¬ IsMember right id := fun isMember =>
        alone (isMember.alike alike.symm ((alike.encloses_iff .refl).mp encloses))
      exact .bare (alike.has reached isName) otherAlone (refers.alike alike reached)
        (alike.withTarget scope) (tracks.alike alike scope.reached)

theorem Exempt.alike (alike : left.Alike right body) {threshold : Nat} {record : SymbolId}
    (exempt : Exempt left threshold body record) : Exempt right threshold body record := by
  rcases exempt with ⟨invocation, encloses, transfers⟩ | ⟨fields, distinct, many, used⟩
  · exact .inl ⟨invocation, (alike.encloses_iff .refl).mp encloses,
      transfers.alike alike encloses.to_reflTransGen⟩
  · refine .inr ⟨fields, distinct, many, fun field member => ?_⟩
    obtain ⟨place, encloses, uses⟩ := used field member
    exact ⟨place, (alike.encloses_iff .refl).mp encloses, uses.alike alike encloses⟩

/-- In bodies that are alike the same records are exempt. -/
theorem exempts_alike (alike : left.Alike right body) (threshold : Nat) :
    ∃ before after, usage left body = .ok before ∧ usage right body = .ok after ∧
      ∀ record, before.exempts threshold record = after.exempts threshold record := by
  obtain ⟨_, _, found, otherFound, _⟩ := alike.nodes body .refl
  obtain ⟨before, isBefore, exempts⟩ :=
    exempts_iff alike.formed (Model.lt_size_of_found found) threshold
  obtain ⟨after, isAfter, otherExempts⟩ :=
    exempts_iff alike.otherFormed (Model.lt_size_of_found otherFound) threshold
  refine ⟨before, after, isBefore, isAfter, fun record => ?_⟩
  rw [Bool.eq_iff_iff, exempts, otherExempts]
  exact ⟨Exempt.alike alike, Exempt.alike alike.symm⟩

theorem CallsOn.alike (alike : left.Alike right body) (reached : left.Reaches body id)
    {record : SymbolId} {method : Symbol} (callsOn : CallsOn left body id record method) :
    CallsOn right body id record method := by
  obtain ⟨call, receiver, invokes, receives, tracks⟩ := callsOn
  exact ⟨call, receiver, invokes.alike alike reached, receives.alike alike,
    tracks.alike alike (receives.reached reached invokes)⟩

theorem Assigns.alike (alike : left.Alike right body) (reached : left.Reaches body id)
    {record : SymbolId} (assigns : Assigns left id record) : Assigns right id record := by
  obtain ⟨isAssignment, target, first, isName, tracks⟩ := assigns
  have targetReached := reached.tail first.lists
  exact ⟨alike.has reached isAssignment, target,
    alike.childAt reached isAssignment (by decide) first, alike.has targetReached isName,
    tracks.alike alike targetReached⟩

theorem Happens.alike (alike : left.Alike right body) (reached : left.Reaches body id)
    {event : Event} (happens : Happens left body id event) : Happens right body id event := by
  rw [happens_iff] at happens ⊢
  rcases happens with ⟨record, method, callsOn, isEvent⟩ | ⟨record, assigns, isEvent⟩
  · exact .inl ⟨record, method, callsOn.alike alike reached, isEvent⟩
  · exact .inr ⟨record, assigns.alike alike reached, isEvent⟩

/-- At each node of bodies that are alike, the same happens. -/
theorem eventsAt_alike (alike : left.Alike right body)
    (isBlock : left.Has (·.kind = .block) body = true) (reached : left.Reaches body id) :
    eventsAt left body id = eventsAt right body id := by
  have otherReached := (alike.reaches_iff .refl).mp reached
  obtain ⟨event, found, exact⟩ := eventsAt_yields alike.formed isBlock reached
  obtain ⟨other, otherFound, otherExact⟩ :=
    eventsAt_yields alike.otherFormed (alike.has .refl isBlock) otherReached
  have same : event = other := Option.ext fun value => by
    rw [exact, otherExact]
    exact ⟨Happens.alike alike reached, Happens.alike alike.symm otherReached⟩
  rw [found, otherFound, same]

theorem finding_alike (alike : left.Alike right body) {fetch : Fetch}
    (reached : left.Reaches body fetch.call) : finding left fetch = finding right fetch := by
  obtain ⟨node, other, found, otherFound, same⟩ := alike.nodes fetch.call reached
  simp only [finding, Model.symbol, alike.symbols, Model.findingAt, Model.node_eq_ok found,
    Model.node_eq_ok otherFound, same.span, bind, Except.bind, pure, Except.pure]

end Rules.SetLoadFields

end ModelLint
