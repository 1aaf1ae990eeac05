import ModelLint.Proofs.Model.Insertion
import ModelLint.Proofs.Rules.Success

namespace ModelLint

/-! The findings about parameters of a procedure that is given another statement.

What a procedure modifies is the union of what its nodes modify, and each node modifies a symbol by
what stands right below it. A statement in a block therefore adds what it modifies itself, and
takes nothing away from what was modified before. -/

open Fallible

namespace Fallible

variable {ε α : Type}

theorem Finds.toList_yields {search : Except ε (Option α)} {fits : α → Prop}
    (finds : Finds search fits) : Yields (do return (← search).toList) fits := by
  obtain ⟨found, succeeded, exact⟩ := finds
  exact ⟨found, by rw [succeeded]; rfl, exact⟩

end Fallible

namespace Model

/-- What is found at some of the places is what is picked out of all that is found. -/
theorem gather_filter {α β : Type} {find : α → Except MissingId (List β)} {keeps : α → Bool}
    {picks : β → Bool} {places : List α}
    (each : ∀ place ∈ places, ∃ found, find place = .ok [found] ∧ picks found = keeps place) :
    ∃ findings, gather find places = .ok findings ∧
      gather find (places.filter keeps) = .ok (findings.filter picks) := by
  induction places with
  | nil => exact ⟨[], rfl, rfl⟩
  | cons place rest ih =>
      obtain ⟨found, here, same⟩ := each place (by simp)
      obtain ⟨findings, all, kept⟩ := ih fun other member => each other (by simp [member])
      refine ⟨found :: findings, ?_, ?_⟩
      · simp [gather, here, all, bind, Except.bind, pure, Except.pure]
      · rw [List.filter_cons, List.filter_cons, same]
        cases keeps place with
        | false => exact kept
        | true => simp [gather, here, kept, bind, Except.bind, pure, Except.pure]

end Model

namespace Rules.VarParameter

variable {model left right : Model} {id procedure : NodeId} {symbol : SymbolId} {node : Node}

/-- The receiver of a member access is a plain name. -/
def Receives (model : Model) (access : NodeId) (symbol : SymbolId) : Prop :=
  model.Has (·.kind = .memberAccess) access = true ∧
    ∃ receiver, model.ChildAt access 0 receiver ∧ model.Names receiver symbol

inductive Modifies (model : Model) (id : NodeId) (symbol : SymbolId) : Prop where
  | assigned {target : NodeId}
      (isAssignment : model.Has (·.kind ∈ [.assignment, .compoundAssignment]) id = true)
      (first : model.ChildAt id 0 target) (names : model.Names target symbol)
  | assignedMember {target : NodeId}
      (isAssignment : model.Has (·.kind ∈ [.assignment, .compoundAssignment]) id = true)
      (first : model.ChildAt id 0 target) (receives : Receives model target symbol)
  | called {callee : NodeId} (isInvocation : model.Has (·.kind = .invocation) id = true)
      (first : model.ChildAt id 0 callee) (receives : Receives model callee symbol)

theorem receiverSymbol_finds (wellFormed : model.WellFormed) (inside : id < model.nodes.size) :
    Finds (receiverSymbol model id) (Receives model id) := by
  obtain ⟨node, found⟩ := Model.found_of_lt_size inside
  simp only [receiverSymbol, Model.node_eq_ok found, bind, Except.bind]
  split
  · rename_i receiver others isAccess parts
    have receiverInside := Model.children_inside wellFormed found receiver (by simp [parts])
    refine (Model.identifierSymbol_finds receiverInside).congr fun symbol => ?_
    simp [Receives, Model.Has, Model.ChildAt, found, isAccess, parts]
  · rename_i noAccess
    refine finds_none fun symbol receives => ?_
    obtain ⟨isAccess, receiver, first, _⟩ := receives
    obtain ⟨others, parts⟩ := first.first found
    exact noAccess receiver others ((Model.has_kind_iff found).mp isAccess) parts

theorem writtenSymbol_finds (wellFormed : model.WellFormed) (inside : id < model.nodes.size) :
    Finds (writtenSymbol model id) fun symbol =>
      model.Names id symbol ∨ Receives model id symbol := by
  obtain ⟨node, found⟩ := Model.found_of_lt_size inside
  simp only [writtenSymbol, Model.kind_eq_ok found, bind, Except.bind]
  by_cases isName : node.kind = .identifier
  · rw [if_pos isName]
    refine (Model.identifierSymbol_finds inside).congr fun symbol => ?_
    simp [Receives, Model.Has, found, isName]
  · rw [if_neg isName]
    refine (receiverSymbol_finds wellFormed inside).congr fun symbol => ?_
    simp [Model.Names, found, isName]

theorem modifies_iff (found : model.nodes[id]? = some node) :
    Modifies model id symbol ↔
      (node.kind ∈ [.assignment, .compoundAssignment] ∧
        ∃ target, node.children.head? = some target ∧
          (model.Names target symbol ∨ Receives model target symbol)) ∨
      node.kind = .invocation ∧ ∃ callee, node.children.head? = some callee ∧
        Receives model callee symbol := by
  have childAt {child : NodeId} : model.ChildAt id 0 child ↔ node.children.head? = some child := by
    simp [Model.ChildAt, found, List.head?_eq_getElem?]
  have has {accepts : Node → Bool} : model.Has accepts id = true ↔ accepts node = true := by
    simp [Model.Has, found]
  constructor
  · intro modifies
    cases modifies with
    | assigned isAssignment first names =>
        exact .inl ⟨by simpa using has.mp isAssignment, _, childAt.mp first, .inl names⟩
    | assignedMember isAssignment first receives =>
        exact .inl ⟨by simpa using has.mp isAssignment, _, childAt.mp first, .inr receives⟩
    | called isInvocation first receives =>
        exact .inr ⟨by simpa using has.mp isInvocation, _, childAt.mp first, receives⟩
  · intro either
    rcases either with ⟨isAssignment, target, first, names | receives⟩ |
      ⟨isCall, callee, first, receives⟩
    · exact .assigned (has.mpr (by simpa using isAssignment)) (childAt.mpr first) names
    · exact .assignedMember (has.mpr (by simpa using isAssignment)) (childAt.mpr first) receives
    · exact .called (has.mpr (by simpa using isCall)) (childAt.mpr first) receives

theorem modifiedAt_collects (wellFormed : model.WellFormed) (inside : id < model.nodes.size) :
    Collects (modifiedAt model id) (Modifies model id) := by
  obtain ⟨node, found⟩ := Model.found_of_lt_size inside
  have childInside := Model.children_inside wellFormed found
  have assigned {target : NodeId} {others : List NodeId} (parts : node.children = target :: others)
      (isAssignment : node.kind ∈ [.assignment, .compoundAssignment]) :
      Collects (do return (← writtenSymbol model target).toList) (Modifies model id) := by
    have written := writtenSymbol_finds wellFormed (childInside target (by simp [parts]))
    have notCall : node.kind ≠ .invocation := by
      rcases List.mem_pair.mp isAssignment with isPlain | isCompound <;> simp [*]
    refine (written.congr fun symbol => ?_).toList_yields.collects
    simp only [modifies_iff found, isAssignment, notCall, parts, List.head?_cons,
      Option.some.injEq, exists_eq_left', true_and, false_and, or_false]
  simp only [modifiedAt, Model.node_eq_ok found, bind, Except.bind]
  split
  · rename_i isPlain parts
    exact assigned parts (by simp [isPlain])
  · rename_i isCompound parts
    exact assigned parts (by simp [isCompound])
  · rename_i callee _ isCall parts
    have received := receiverSymbol_finds wellFormed (childInside callee (by simp [parts]))
    refine (received.congr fun symbol => ?_).toList_yields.collects
    simp [modifies_iff found, isCall, parts]
  · rename_i noPlain noCompound noCall
    refine collects_nil fun symbol modifies => ?_
    rcases (modifies_iff found).mp modifies with ⟨isAssignment, _, first, _⟩ | ⟨isCall, _, first, _⟩
    · obtain ⟨others, parts⟩ := List.head?_eq_some_iff.mp first
      rcases List.mem_pair.mp isAssignment with isPlain | isCompound
      · exact noPlain _ _ isPlain parts
      · exact noCompound _ _ isCompound parts
    · obtain ⟨others, parts⟩ := List.head?_eq_some_iff.mp first
      exact noCall _ _ isCall parts

/-- Two models have the same nodes in some region, blocks apart, and only blocks lead out of it. -/
def Agree (left right : Model) (region : NodeId → Prop) : Prop :=
  ∀ id node, region id → left.nodes[id]? = some node → node.kind ≠ .block →
    right.nodes[id]? = some node ∧ ∀ child ∈ node.children, region child

theorem Agree.names {region : NodeId → Prop} (agree : Agree left right region) (within : region id)
    (names : left.Names id symbol) : right.Names id symbol := by
  obtain ⟨node, found, isName, refers⟩ := names
  exact ⟨node, (agree id node within found (by simp [isName])).1, isName, refers⟩

theorem Agree.receives {region : NodeId → Prop} (agree : Agree left right region)
    (within : region id) (receives : Receives left id symbol) : Receives right id symbol := by
  obtain ⟨isAccess, receiver, ⟨node, found, first⟩, names⟩ := receives
  have access := (Model.has_kind_iff found).mp isAccess
  obtain ⟨same, closed⟩ := agree id node within found (by simp [access])
  exact ⟨(Model.has_kind_iff same).mpr access, receiver, ⟨node, same, first⟩,
    agree.names (closed receiver (List.mem_of_getElem? first)) names⟩

theorem Agree.modifies {region : NodeId → Prop} (agree : Agree left right region)
    (within : region id) (modifies : Modifies left id symbol) : Modifies right id symbol := by
  obtain ⟨node, found⟩ : ∃ node, left.nodes[id]? = some node := by
    cases modifies with
    | assigned _ first | assignedMember _ first | called _ first => exact ⟨_, first.choose_spec.1⟩
  have parts := (modifies_iff found).mp modifies
  have notBlock : node.kind ≠ .block := by
    intro isBlock
    simp [isBlock] at parts
  obtain ⟨same, closed⟩ := agree id node within found notBlock
  refine (modifies_iff same).mpr ?_
  rcases parts with ⟨isAssignment, target, first, names | receives⟩ | ⟨isCall, callee, first,
    receives⟩
  · have targetWithin := closed target (List.mem_of_mem_head? first)
    exact .inl ⟨isAssignment, target, first, .inl (agree.names targetWithin names)⟩
  · have targetWithin := closed target (List.mem_of_mem_head? first)
    exact .inl ⟨isAssignment, target, first, .inr (agree.receives targetWithin receives)⟩
  · have calleeWithin := closed callee (List.mem_of_mem_head? first)
    exact .inr ⟨isCall, callee, first, agree.receives calleeWithin receives⟩

section Insertion

variable {block statement : NodeId} {position : Nat} {added : Array Node}

theorem agree_insert (wellFormed : model.WellFormed)
    (isBlock : model.Has (·.kind = .block) block = true) :
    Agree model (model.insert block position statement added) (· < model.nodes.size) := by
  intro id node _ found notBlock
  have other : block ≠ id := by
    rintro rfl
    exact notBlock ((Model.has_kind_iff found).mp isBlock)
  exact ⟨Model.insert_found_of_ne found other, Model.children_inside wellFormed found⟩

theorem insert_agree (wellFormed : model.WellFormed)
    (isBlock : model.Has (·.kind = .block) block = true) :
    Agree (model.insert block position statement added) model (· < model.nodes.size) := by
  intro id node inside insertFound notBlock
  obtain ⟨before, found⟩ := Model.found_of_lt_size inside
  by_cases isHolder : block = id
  · subst isHolder
    rw [Model.insert_found_holder found] at insertFound
    cases insertFound
    exact absurd ((Model.has_kind_iff found).mp isBlock) notBlock
  · rw [Model.insert_found_of_ne found isHolder] at insertFound
    cases insertFound
    exact ⟨found, Model.children_inside wellFormed found⟩

theorem parameterAt_insert (isBlock : model.Has (·.kind = .block) block = true)
    (inside : id < model.nodes.size) :
    parameterAt (model.insert block position statement added) id = parameterAt model id := by
  obtain ⟨node, found⟩ := Model.found_of_lt_size inside
  by_cases isHolder : block = id
  · subst isHolder
    have kind := (Model.has_kind_iff found).mp isBlock
    simp [parameterAt, Model.node_eq_ok found, Model.node_eq_ok (Model.insert_found_holder found),
      kind, bind, Except.bind]
  · simp only [parameterAt, Model.node_eq_ok found,
      Model.node_eq_ok (Model.insert_found_of_ne found isHolder)]
    rfl

end Insertion

/-- A node declares a parameter that is passed by reference. -/
def Passes (model : Model) (id : NodeId) (parameter : Parameter) : Prop :=
  parameter.node = id ∧ ∃ node declared, model.nodes[id]? = some node ∧ node.kind = .parameter ∧
    node.declares = some parameter.symbol ∧ model.symbols[parameter.symbol]? = some declared ∧
    declared.byReference = true ∧ parameter.name = declared.name

theorem parameterAt_yields (wellFormed : model.WellFormed) (inside : id < model.nodes.size) :
    Yields (parameterAt model id) (Passes model id) := by
  obtain ⟨node, found⟩ := Model.found_of_lt_size inside
  simp only [parameterAt, Model.node_eq_ok found, bind, Except.bind]
  split
  · rename_i symbol isParameter declares
    obtain ⟨declared, known⟩ := Model.symbol_of_lt_size
      (wellFormed.nodeSymbols id node found symbol (.inr declares))
    simp only [Model.symbol_eq_ok known]
    cases passed : declared.byReference with
    | true =>
        refine yields_one ⟨rfl, node, declared, found, isParameter, declares, known, passed, rfl⟩ ?_
        rintro ⟨_, _, _⟩ ⟨rfl, other, otherDeclared, again, _, same, otherKnown, _, rfl⟩
        simp_all
    | false =>
        refine yields_nothing ?_
        rintro ⟨_, _, _⟩ ⟨rfl, other, otherDeclared, again, _, same, otherKnown, passed, rfl⟩
        simp_all
  · rename_i none
    refine yields_nothing ?_
    rintro parameter ⟨_, other, _, again, isParameter, declares, _⟩
    obtain rfl : node = other := by simpa [found] using again
    exact none _ isParameter declares

def isDue (node : Node) (modified : List SymbolId) (parameter : Parameter) : Bool :=
  !modified.contains parameter.symbol && !isExplained node.comments parameter.name

theorem filter_isDue {before modified after : List SymbolId}
    (split : ∀ symbol, symbol ∈ after ↔ symbol ∈ before ∨ symbol ∈ modified)
    (parameters : List Parameter) :
    parameters.filter (isDue node after) =
      (parameters.filter (isDue node before)).filter fun parameter =>
        !modified.contains parameter.symbol := by
  rw [List.filter_filter]
  refine List.filter_congr fun parameter _ => ?_
  have same : after.contains parameter.symbol =
      (before.contains parameter.symbol || modified.contains parameter.symbol) := by
    simp [split]
  rw [isDue, isDue, same, Bool.not_or, Bool.and_right_comm, Bool.and_comm]

theorem check_eq_gather (wellFormed : model.WellFormed)
    (found : model.nodes[procedure]? = some node) :
    ∃ (parameters : List Parameter) (modified : List SymbolId),
      Model.gather (parameterAt model) node.children = .ok parameters ∧
      (∀ parameter ∈ parameters, ∃ child ∈ node.children, Passes model child parameter) ∧
      (∀ symbol, symbol ∈ modified ↔
        ∃ id, model.Encloses procedure id ∧ Modifies model id symbol) ∧
      check model procedure =
        Model.gather (finding model) (parameters.filter (isDue node modified)) := by
  obtain ⟨parameters, passed, reports⟩ := Model.gather_yields fun child member =>
    parameterAt_yields wellFormed (Model.children_inside wellFormed found child member)
  obtain ⟨tree, fits, rfl⟩ := wellFormed.treeAt (Model.lt_size_of_found found)
  obtain ⟨modified, gathered, exact⟩ := wellFormed.enclosed_collects fits fun id _ inside =>
    modifiedAt_collects wellFormed inside
  refine ⟨parameters, modified, passed, fun parameter member => reports.exists_of_mem member,
    exact, ?_⟩
  simp only [check, Model.node_eq_ok found, passed, wellFormed.descendants_eq_ok fits, gathered,
    bind, Except.bind]
  rfl

/-- The symbol that is declared where a finding is anchored. -/
def declaredAt (model : Model) (finding : Finding) : Option SymbolId :=
  finding.anchor.bind fun id => model.nodes[id]?.bind (·.declares)

theorem finding_eq_ok {parameter : Parameter} (passes : Passes model id parameter) :
    ∃ shown, finding model parameter = .ok [shown] ∧
      declaredAt model shown = some parameter.symbol := by
  obtain ⟨rfl, node, declared, found, isParameter, declares, _⟩ := passes
  refine ⟨⟨.span node.span, [parameter.name], some parameter.node⟩, ?_, ?_⟩
  · simp [finding, Model.findingAt, Model.node_eq_ok found, bind, Except.bind, pure, Except.pure]
  · simp [declaredAt, found, declares]

theorem findings_filter {parameters : List Parameter}
    (declared : ∀ parameter ∈ parameters, ∃ id, Passes model id parameter)
    (modified : List SymbolId) :
    ∃ findings, Model.gather (finding model) parameters = .ok findings ∧
      Model.gather (finding model)
          (parameters.filter fun parameter => !modified.contains parameter.symbol) =
        .ok (findings.filter fun finding => !(declaredAt model finding).any modified.contains) := by
  refine Model.gather_filter fun parameter member => ?_
  obtain ⟨id, passes⟩ := declared parameter member
  obtain ⟨shown, made, isDeclared⟩ := finding_eq_ok passes
  exact ⟨shown, made, by simp [isDeclared]⟩

variable {block statement : NodeId} {position : Nat} {added : Array Node}

theorem finding_insert (wellFormed : model.WellFormed)
    (isBlock : model.Has (·.kind = .block) block = true) {parameter : Parameter}
    (passes : Passes model id parameter) :
    finding (model.insert block position statement added) parameter = finding model parameter := by
  obtain ⟨rfl, node, _, found, isParameter, _⟩ := passes
  have same : (model.insert block position statement added).nodes[parameter.node]? = some node :=
    (agree_insert wellFormed isBlock parameter.node node (Model.lt_size_of_found found) found
      (by simp [isParameter])).1
  simp only [finding, Model.findingAt, Model.node_eq_ok found, Model.node_eq_ok same]

theorem gather_finding_insert (wellFormed : model.WellFormed)
    (isBlock : model.Has (·.kind = .block) block = true) {parameters : List Parameter}
    (shown : ∀ parameter ∈ parameters, ∃ id, Passes model id parameter) :
    Model.gather (finding (model.insert block position statement added)) parameters =
      Model.gather (finding model) parameters := by
  refine Model.gather_congr fun parameter member => ?_
  obtain ⟨id, passes⟩ := shown parameter member
  exact finding_insert wellFormed isBlock passes

/-- A procedure modifies what it modified before, and what the statement modifies. -/
theorem modifies_insert_iff (wellFormed : model.WellFormed)
    (isBlock : model.Has (·.kind = .block) block = true)
    (encloses : model.Encloses procedure block) :
    (∃ id, (model.insert block position statement added).Encloses procedure id ∧
        Modifies (model.insert block position statement added) id symbol) ↔
      (∃ id, model.Encloses procedure id ∧ Modifies model id symbol) ∨
      ∃ id, (model.insert block position statement added).Reaches statement id ∧
        Modifies (model.insert block position statement added) id symbol := by
  have inside {id : NodeId} (enclosed : model.Encloses procedure id) : id < model.nodes.size :=
    Model.lt_size_of_reaches wellFormed encloses.inside enclosed.to_reflTransGen
  constructor
  · rintro ⟨id, enclosed, modifies⟩
    rcases (Model.encloses_insert_iff wellFormed encloses).mp enclosed with old | new
    · exact .inl ⟨id, old, (insert_agree wellFormed isBlock).modifies (inside old) modifies⟩
    · exact .inr ⟨id, new, modifies⟩
  · rintro (⟨id, old, modifies⟩ | ⟨id, new, modifies⟩)
    · exact ⟨id, old.insert, (agree_insert wellFormed isBlock).modifies (inside old) modifies⟩
    · exact ⟨id, (Model.encloses_insert_iff wellFormed encloses).mpr (.inr new), modifies⟩

theorem modified_exists (wellFormed : model.WellFormed) (inside : id < model.nodes.size) :
    ∃ modified : List SymbolId, ∀ symbol, symbol ∈ modified ↔
      ∃ inner, model.Reaches id inner ∧ Modifies model inner symbol := by
  obtain ⟨tree, fits, rfl⟩ := wellFormed.treeAt inside
  obtain ⟨modified, _, exact⟩ := Model.gather_collects fun inner member =>
    modifiedAt_collects wellFormed
      (Model.lt_size_of_reaches wellFormed inside (fits.mem_preorder_iff.mp member))
  exact ⟨modified, fun symbol => by simp only [exact, fits.mem_preorder_iff]⟩

/-- A statement in a block of a procedure, at any position, leaves the findings at the procedure as
they were and in their order, but for those about parameters that the statement modifies itself.
There is no new one. -/
theorem onNode_insert (accepted : model.check = .ok ())
    (isBlock : model.Has (·.kind = .block) block = true)
    (encloses : model.Encloses procedure block)
    (stillAccepted : (model.insert block position statement added).check = .ok ()) :
    ∃ (findings : List Finding) (modified : List SymbolId),
      (∀ symbol, symbol ∈ modified ↔
        ∃ id, (model.insert block position statement added).Reaches statement id ∧
          Modifies (model.insert block position statement added) id symbol) ∧
      ∀ source cancelled,
        rule.onNode ⟨model, source, cancelled⟩ procedure = { findings := findings } ∧
        rule.onNode ⟨model.insert block position statement added, source, cancelled⟩ procedure =
          { findings := findings.filter fun finding =>
              !(declaredAt model finding).any modified.contains } := by
  have wellFormed := Model.wellFormed_of_check accepted
  have grown := Model.wellFormed_of_check stillAccepted
  obtain ⟨node, found⟩ := Model.found_of_lt_size encloses.inside
  have apart : block ≠ procedure := by
    rintro rfl
    exact Model.not_encloses_self wellFormed encloses
  have grownFound : (model.insert block position statement added).nodes[procedure]? = some node :=
    Model.insert_found_of_ne found apart
  obtain ⟨parameters, before, passed, declared, modifiedBefore, checked⟩ :=
    check_eq_gather wellFormed found
  obtain ⟨again, after, passedAgain, _, modifiedAfter, checkedAfter⟩ :=
    check_eq_gather grown grownFound
  -- The node of the procedure is the same, and so are the parameters that it declares.
  obtain rfl : parameters = again := by
    have same : Model.gather (parameterAt (model.insert block position statement added))
        node.children = Model.gather (parameterAt model) node.children :=
      Model.gather_congr fun child member =>
        parameterAt_insert isBlock (Model.children_inside wellFormed found child member)
    rw [same, passed] at passedAgain
    exact Except.ok.inj passedAgain
  have holderInside := Model.lt_size_of_reaches wellFormed encloses.inside encloses.to_reflTransGen
  have enters : (model.insert block position statement added).Lists block statement :=
    (Model.lists_insert_iff holderInside).mpr (.inr ⟨rfl, rfl⟩)
  obtain ⟨modified, exact⟩ :=
    modified_exists grown (Model.closed_of_linked grown.linked _ _ enters)
  have split : ∀ symbol, symbol ∈ after ↔ symbol ∈ before ∨ symbol ∈ modified := by
    intro symbol
    rw [modifiedAfter, modifiedBefore, exact]
    exact modifies_insert_iff wellFormed isBlock encloses
  have shown : ∀ parameter ∈ parameters.filter (isDue node before), ∃ id,
      Passes model id parameter := by
    intro parameter member
    obtain ⟨child, _, passes⟩ := declared parameter (List.mem_of_mem_filter member)
    exact ⟨child, passes⟩
  obtain ⟨findings, all, kept⟩ := findings_filter shown modified
  refine ⟨findings, modified, exact, fun source cancelled => ⟨?_, ?_⟩⟩
  · simp only [rule, checked, all, Outcome.ofCheck]
  · rw [filter_isDue split, gather_finding_insert wellFormed isBlock fun parameter member =>
      shown parameter (List.mem_of_mem_filter member), kept] at checkedAfter
    simp only [rule, checkedAfter, Outcome.ofCheck]

/-- A procedure with three parameters passed by reference, one of which is assigned in a loop. -/
def threePassed : Model where
  filePath := "Passed.al"
  nodes := #[
    { kind := .compilationUnit, children := [1] },
    { kind := .procedure, parent := some 0, children := [2, 3, 4, 5] },
    { kind := .parameter, parent := some 1, declares := some 0 },
    { kind := .parameter, parent := some 1, declares := some 1 },
    { kind := .parameter, parent := some 1, declares := some 2 },
    { kind := .block, parent := some 1, children := [6] },
    { kind := .whileLoop, parent := some 5, children := [7] },
    { kind := .block, parent := some 6, children := [8] },
    { kind := .assignment, parent := some 7, children := [9, 10] },
    { kind := .identifier, parent := some 8, symbol := some 0 },
    { kind := .literal, parent := some 8 }]
  symbols := #[
    { name := "Total", kind := .parameter, byReference := true },
    { name := "Customer", kind := .parameter, byReference := true },
    { name := "Vendor", kind := .parameter, byReference := true }]

/-- A call of a method of the second parameter. -/
def resetCall : Array Node := #[
  { kind := .invocation, parent := some 7, children := [12] },
  { kind := .memberAccess, parent := some 11, children := [13] },
  { kind := .identifier, parent := some 12, symbol := some 1 }]

theorem onNode_insert_resetCall :
    ∃ findings : List Finding, findings.map (·.args) = [["Customer"], ["Vendor"]] ∧
      ∃ modified : List SymbolId, 1 ∈ modified ∧
        rule.onNode ⟨threePassed.insert 7 0 11 resetCall, "", false⟩ 1 =
          { findings := findings.filter fun finding =>
              !(declaredAt threePassed finding).any modified.contains } := by
  have accepted : threePassed.check = .ok () := by decide +kernel
  have stillAccepted : (threePassed.insert 7 0 11 resetCall).check = .ok () := by decide +kernel
  have encloses : threePassed.Encloses 1 7 := by
    have body : threePassed.Lists 1 5 := ⟨_, rfl, by decide⟩
    have loop : threePassed.Lists 5 6 := ⟨_, rfl, by decide⟩
    have inner : threePassed.Lists 6 7 := ⟨_, rfl, by decide⟩
    exact ((Relation.TransGen.single body).tail loop).tail inner
  obtain ⟨findings, modified, exact, shown⟩ :=
    onNode_insert accepted (by decide) encloses stillAccepted
  obtain ⟨before, after⟩ := shown "" false
  refine ⟨findings, ?_, modified, (exact 1).mpr ⟨11, .refl, ?_⟩, after⟩
  · have computed : (rule.onNode ⟨threePassed, "", false⟩ 1).findings.map (·.args) =
        [["Customer"], ["Vendor"]] := by decide +kernel
    rwa [before] at computed
  · exact .called (by decide) ⟨_, rfl, rfl⟩ ⟨by decide, 13, ⟨_, rfl, rfl⟩, ⟨_, rfl, rfl, rfl⟩⟩

end Rules.VarParameter

end ModelLint
