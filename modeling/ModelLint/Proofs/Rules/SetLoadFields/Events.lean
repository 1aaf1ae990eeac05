import ModelLint.Proofs.Rules.SetLoadFields.Exemption

namespace ModelLint

/-! What happens to records, in the order of evaluation.

The events that the rule collects are those of the single nodes, one at most for each,
taken in the order in which the body is evaluated. -/

namespace Tree

/-- The nodes of a tree in the order of evaluation: a node after everything below it,
and the target of an assignment after its sources. -/
def evaluated : Tree → List NodeId
  | node id _ [] => [id]
  | node id content (first :: rest) =>
      if content.kind = .assignment then
        rest.flatMap evaluated ++ first.evaluated ++ [id]
      else first.evaluated ++ rest.flatMap evaluated ++ [id]

theorem evaluated_assignment {id : NodeId} {content : Node} {first : Tree} {rest : List Tree}
    (isAssignment : content.kind = .assignment) :
    (node id content (first :: rest)).evaluated =
      (rest ++ [first]).flatMap evaluated ++ [id] := by
  rw [evaluated, if_pos isAssignment, List.flatMap_append, List.flatMap_singleton]

theorem evaluated_other {id : NodeId} {content : Node} {branches : List Tree}
    (other : content.kind ≠ .assignment ∨ branches = []) :
    (node id content branches).evaluated = branches.flatMap evaluated ++ [id] := by
  cases branches with
  | nil => rw [evaluated, List.flatMap_nil, List.nil_append]
  | cons first rest =>
      have notAssignment : content.kind ≠ .assignment := by simpa using other
      rw [evaluated, if_neg notAssignment, List.flatMap_cons]

theorem evaluated_congr {id : NodeId} {content other : Node} {branches : List Tree}
    (same : content.kind = other.kind) :
    (node id content branches).evaluated = (node id other branches).evaluated := by
  cases branches with
  | nil => rw [evaluated, evaluated]
  | cons first rest => rw [evaluated, evaluated, same]

theorem evaluated_perm {model : Model} {tree : Tree} (fits : tree.Fits model) :
    tree.evaluated.Perm tree.preorder := by
  induction fits with
  | @node id content branches found listed fit ih =>
      have below : (branches.flatMap evaluated).Perm (nodes branches) :=
        List.Perm.flatMap_left branches ih
      have after :
          (branches.flatMap evaluated ++ [id]).Perm (node id content branches).preorder := by
        rw [preorder_node]
        exact List.perm_append_comm.trans (below.cons id)
      by_cases other : content.kind ≠ .assignment ∨ branches = []
      · rw [evaluated_other other]
        exact after
      · cases branches with
        | nil => simp at other
        | cons first rest =>
            rw [evaluated_assignment (by simpa using other)]
            have moved : (rest ++ [first]).Perm (first :: rest) := List.perm_append_comm
            exact ((moved.flatMap_right evaluated).append_right [id]).trans after

theorem mem_evaluated_iff {model : Model} {tree : Tree} (fits : tree.Fits model) {id : NodeId} :
    id ∈ tree.evaluated ↔ model.Reaches tree.id id :=
  (evaluated_perm fits).mem_iff.trans fits.mem_preorder_iff

end Tree

namespace Rules.SetLoadFields

open Fallible

/-- A call of a platform method on a tracked record. -/
def CallsOn (model : Model) (body invocation : NodeId) (record : SymbolId) (method : Symbol) :
    Prop :=
  ∃ call receiver, Invokes model invocation call method ∧
    Receives model body invocation call receiver ∧ Tracks model receiver record

/-- A tracked record is assigned by its plain name. -/
def Assigns (model : Model) (id : NodeId) (record : SymbolId) : Prop :=
  model.Has (·.kind = .assignment) id = true ∧ ∃ target, model.ChildAt id 0 target ∧
    model.Has (·.kind = .identifier) target = true ∧ Tracks model target record

/-- A method has one of some names, in any letter case. -/
def IsNamed (names : List String) (method : Symbol) : Prop :=
  ∃ name ∈ names, Text.sameIgnoringCase name method.name = true

def Chooses (model : Model) (body id : NodeId) (record : SymbolId) : Prop :=
  ∃ method, CallsOn model body id record method ∧ IsNamed ["SetLoadFields", "AddLoadFields"] method

def Forgets (model : Model) (body id : NodeId) (record : SymbolId) : Prop :=
  (∃ method, CallsOn model body id record method ∧ IsNamed ["ClearLoadFields"] method) ∨
    Assigns model id record

def Fetches (model : Model) (body id : NodeId) (record : SymbolId) (method : Symbol) : Prop :=
  CallsOn model body id record method ∧
    IsNamed ["FindSet", "FindFirst", "FindLast", "Find", "Get"] method

variable {model : Model} {body id : NodeId}

/-- What happens at a node itself, apart from the nodes below it. -/
def eventsAt (model : Model) (body id : NodeId) : Except MissingId (List Event) := do
  let node ← model.node id
  match node.kind, node.children with
  | .assignment, target :: _ => assignmentEvent model target
  | .invocation, _ => callEvent model body id
  | _, _ => return []

theorem events_other {node : Node} {depth : Nat} (found : model.nodes[id]? = some node)
    (other : node.kind ≠ .assignment ∨ node.children = []) :
    events model body (depth + 1) id = do
      let before ← Model.gather (events model body depth) node.children
      return before ++ (← eventsAt model body id) := by
  simp only [events, Model.node_eq_ok found, bind, Except.bind]
  split
  · rename_i isAssignment parts
    simp [isAssignment, parts] at other
  · rename_i isInvocation
    simp only [eventsAt, Model.node_eq_ok found, isInvocation, bind, Except.bind]
  · rename_i noInvocation noAssignment
    have quiet : eventsAt model body id = .ok [] := by
      simp only [eventsAt, Model.node_eq_ok found, bind, Except.bind]
      rfl
    cases Model.gather (events model body depth) node.children with
    | error reason => rfl
    | ok before => simp [quiet, pure, Except.pure]

theorem events_assignment {node : Node} {target : NodeId} {sources : List NodeId} {depth : Nat}
    (found : model.nodes[id]? = some node) (isAssignment : node.kind = .assignment)
    (parts : node.children = target :: sources) :
    events model body (depth + 1) id = do
      let before ← Model.gather (events model body depth) (sources ++ [target])
      return before ++ (← eventsAt model body id) := by
  simp only [events, eventsAt, Model.node_eq_ok found, isAssignment, parts, bind, Except.bind]

/-- The events of a tree are those of its nodes in the order of evaluation. -/
theorem events_eq_gather {tree : Tree} {depth : Nat} (fits : tree.Fits model)
    (enough : tree.preorder.length ≤ depth) :
    events model body depth tree.id = Model.gather (eventsAt model body) tree.evaluated := by
  induction depth generalizing tree with
  | zero =>
      have : 0 < tree.preorder.length := List.length_pos_of_mem tree.id_mem_preorder
      omega
  | succ depth ih =>
      obtain ⟨found, listed, fit⟩ := fits
      rename_i id content branches
      -- Any order of the branches is evaluated branch by branch.
      have below (forest : List Tree) (subset : ∀ inner ∈ forest, inner ∈ branches) :
          Model.gather (events model body depth) (forest.map Tree.id) =
            Model.gather (eventsAt model body) (forest.flatMap Tree.evaluated) := by
        apply Model.gather_map_eq
        intro inner member
        apply ih (fit inner (subset inner member))
        have block := (Tree.preorder_infix_nodes (subset inner member)).length_le
        simp only [Tree.preorder_node, List.length_cons] at enough
        omega
      by_cases other : content.kind ≠ .assignment ∨ branches = []
      · rw [Tree.evaluated_other other, Model.gather_append, Model.gather_singleton,
          ← below branches fun _ member => member, Tree.id,
          events_other found (by simpa [listed] using other), listed]
      · cases branches with
        | nil => simp at other
        | cons first rest =>
            have isAssignment : content.kind = .assignment := by simpa using other
            rw [Tree.evaluated_assignment isAssignment, Model.gather_append,
              Model.gather_singleton, ← below (rest ++ [first]) (by simp [or_comm]), Tree.id,
              events_assignment found isAssignment (by simpa using listed)]
            simp

theorem isNamed_iff {names : List String} {method : Symbol} :
    IsNamed names method ↔ isOneOf names method.name = true := by
  rw [isOneOf, List.any_eq_true]
  rfl

theorem isOneOf_apart {methods others : List String} {name : String}
    (apart : (methods.all fun method => others.all fun other =>
      !Text.sameIgnoringCase method other) = true)
    (listed : isOneOf methods name = true) : isOneOf others name = false := by
  simp only [isOneOf, List.any_eq_true, List.any_eq_false] at listed ⊢
  obtain ⟨method, member, same⟩ := listed
  intro other otherMember otherSame
  have differ := List.all_eq_true.mp (List.all_eq_true.mp apart method member) other otherMember
  simp_all [Text.sameIgnoringCase]

def Happens (model : Model) (body id : NodeId) : Event → Prop
  | .choose record => Chooses model body id record
  | .forget record => Forgets model body id record
  | .fetch fetch => fetch.call = id ∧
      ∃ method, Fetches model body id fetch.record method ∧ fetch.method = method.name

/-- A method has at most one effect, since no two lists of methods share a name. -/
theorem eventOf_eq_some {record : SymbolId} {name : String} {event : Event} :
    eventOf id record name = some event ↔
      (isOneOf setterMethods name = true ∧ event = .choose record) ∨
      (isOneOf clearerMethods name = true ∧ event = .forget record) ∨
      (isOneOf fetchMethods name = true ∧ event = .fetch ⟨id, record, name⟩) := by
  have setterOnly (isSetter : isOneOf setterMethods name = true) :
      isOneOf clearerMethods name = false ∧ isOneOf fetchMethods name = false :=
    ⟨isOneOf_apart (by decide) isSetter, isOneOf_apart (by decide) isSetter⟩
  have clearerOnly (isClearer : isOneOf clearerMethods name = true) :
      isOneOf fetchMethods name = false :=
    isOneOf_apart (by decide) isClearer
  rw [eventOf]
  by_cases isSetter : isOneOf setterMethods name = true
  · simp [isSetter, setterOnly isSetter, eq_comm]
  · by_cases isClearer : isOneOf clearerMethods name = true
    · simp [isSetter, isClearer, clearerOnly isClearer, eq_comm]
    · by_cases isFetch : isOneOf fetchMethods name = true
      · simp [isSetter, isClearer, isFetch, eq_comm]
      · simp [isSetter, isClearer, isFetch]

theorem happens_iff {event : Event} :
    Happens model body id event ↔
      (∃ record method, CallsOn model body id record method ∧
        eventOf id record method.name = some event) ∨
      ∃ record, Assigns model id record ∧ event = .forget record := by
  simp only [eventOf_eq_some]
  cases event with
  | choose chosen =>
      simp only [Happens, Chooses, isNamed_iff, reduceCtorEq, and_false, or_false, exists_false,
        Event.choose.injEq]
      constructor
      · intro chooses
        obtain ⟨method, callsOn, isSetter⟩ := chooses
        exact ⟨chosen, method, callsOn, isSetter, rfl⟩
      · intro given
        obtain ⟨record, method, callsOn, isSetter, rfl⟩ := given
        exact ⟨method, callsOn, isSetter⟩
  | forget forgotten =>
      simp only [Happens, Forgets, isNamed_iff, reduceCtorEq, and_false, or_false, false_or,
        Event.forget.injEq]
      constructor
      · intro forgets
        rcases forgets with ⟨method, callsOn, isClearer⟩ | assigns
        · exact .inl ⟨forgotten, method, callsOn, isClearer, rfl⟩
        · exact .inr ⟨forgotten, assigns, rfl⟩
      · intro given
        rcases given with ⟨record, method, callsOn, isClearer, rfl⟩ | ⟨record, assigns, rfl⟩
        · exact .inl ⟨method, callsOn, isClearer⟩
        · exact .inr assigns
  | fetch fetch =>
      simp only [Happens, Fetches, isNamed_iff, reduceCtorEq, and_false, or_false, false_or,
        exists_false, Event.fetch.injEq]
      constructor
      · intro fetches
        obtain ⟨rfl, method, ⟨callsOn, isFetch⟩, named⟩ := fetches
        exact ⟨fetch.record, method, callsOn, isFetch, by rw [← named]⟩
      · intro given
        obtain ⟨record, method, callsOn, isFetch, rfl⟩ := given
        exact ⟨rfl, method, ⟨callsOn, isFetch⟩, rfl⟩

theorem callEvent_yields (wellFormed : model.WellFormed) (encloses : model.Encloses body id)
    (isInvocation : model.Has (·.kind = .invocation) id = true) :
    Yields (callEvent model body id) fun event =>
      ∃ record method, CallsOn model body id record method ∧
        eventOf id record method.name = some event := by
  obtain ⟨_, found, _⟩ := Model.has_iff.mp isInvocation
  have inside := Model.lt_size_of_found found
  simp only [callEvent, bind, Except.bind, pure, Except.pure]
  rcases (Model.builtinCall_finds wellFormed inside).cases with
    ⟨none, absent⟩ | ⟨⟨call, method⟩, some, isCall, _⟩
  · simp only [none]
    refine yields_nothing fun event given => ?_
    obtain ⟨_, method, ⟨call, _, ⟨_, isCall⟩, _⟩, _⟩ := given
    exact absent (call, method) isCall
  · have invokes : Invokes model id call method := ⟨isInvocation, isCall⟩
    obtain ⟨record, recordFound, recordExact⟩ :=
      receivedRecord_finds wellFormed encloses inside isCall.1
    obtain ⟨received, receiverFound, trackedFound⟩ := bind_eq_ok.mp recordFound
    have callsOn_iff {other : SymbolId} {otherMethod : Symbol} :
        CallsOn model body id other otherMethod ↔ record = .some other ∧ otherMethod = method := by
      rw [recordExact]
      constructor
      · intro callsOn
        obtain ⟨otherCall, receiver, otherInvokes, receives⟩ := callsOn
        obtain ⟨rfl, rfl⟩ := invokes.unique wellFormed otherInvokes
        exact ⟨⟨receiver, receives⟩, rfl⟩
      · intro given
        obtain ⟨⟨receiver, receives⟩, rfl⟩ := given
        exact ⟨call, receiver, invokes, receives⟩
    simp only [some, receiverFound, trackedFound, callsOn_iff]
    cases record with
    | none => exact yields_nothing (by simp)
    | some record => exact ⟨eventOf id record method.name, rfl, by simp⟩

theorem assignmentEvent_yields (wellFormed : model.WellFormed) {target : NodeId}
    (isAssignment : model.Has (·.kind = .assignment) id = true)
    (first : model.ChildAt id 0 target) :
    Yields (assignmentEvent model target) fun event =>
      ∃ record, Assigns model id record ∧ event = .forget record := by
  obtain ⟨node, found⟩ := Model.found_of_lt_size (first.inside wellFormed)
  have assigns_iff {record : SymbolId} :
      Assigns model id record ↔ node.kind = .identifier ∧ Tracks model target record := by
    have ⟨holder, holderFound, listed⟩ := first
    rw [Assigns, and_iff_right isAssignment]
    simp [Model.ChildAt, holderFound, listed, Model.Has, found]
  simp only [assigns_iff, assignmentEvent, Model.kind_eq_ok found, bind, Except.bind, pure,
    Except.pure]
  by_cases isName : node.kind = .identifier
  · obtain ⟨record, recordFound, recordExact⟩ :=
      trackedRecord_finds wellFormed (first.inside wellFormed)
    simp only [isName, recordFound, ne_eq, not_true_eq_false, if_false, true_and, ← recordExact]
    refine ⟨record.map .forget, by cases record <;> rfl, fun event => ?_⟩
    simp [eq_comm]
  · simp only [isName, ne_eq, not_false_eq_true, if_true]
    exact yields_nothing (by simp)

theorem CallsOn.isInvocation {record : SymbolId} {method : Symbol}
    (callsOn : CallsOn model body id record method) :
    model.Has (·.kind = .invocation) id = true := by
  obtain ⟨_, _, invokes, _⟩ := callsOn
  exact invokes.1

theorem eventsAt_yields (wellFormed : model.WellFormed)
    (isBlock : model.Has (·.kind = .block) body = true) (reached : model.Reaches body id) :
    Yields (eventsAt model body id) (Happens model body id) := by
  obtain ⟨block, blockFound, _⟩ := Model.has_iff.mp isBlock
  obtain ⟨node, found⟩ := Model.found_of_lt_size
    (Model.lt_size_of_reaches wellFormed (Model.lt_size_of_found blockFound) reached)
  have has_iff {kind : NodeKind} : model.Has (·.kind = kind) id = true ↔ node.kind = kind :=
    Model.has_kind_iff found
  have happens {event : Event} : Happens model body id event ↔ _ := happens_iff
  simp only [eventsAt, Model.node_eq_ok found, bind, Except.bind]
  split
  · rename_i target sources isAssignment parts
    have first : model.ChildAt id 0 target := ⟨node, found, by simp [parts]⟩
    obtain ⟨event, succeeded, exact⟩ :=
      assignmentEvent_yields wellFormed (has_iff.mpr isAssignment) first
    refine ⟨event, succeeded, fun other => ?_⟩
    rw [exact, happens]
    refine ⟨.inr, fun either => either.resolve_left fun called => ?_⟩
    obtain ⟨_, _, callsOn, _⟩ := called
    simp [has_iff.mp callsOn.isInvocation] at isAssignment
  · rename_i isInvocation
    -- The body itself is a block, so that the invocation lies below it.
    have differs : id ≠ body := by
      intro same
      simp [← same, has_iff, isInvocation] at isBlock
    have encloses : model.Encloses body id :=
      (Relation.reflTransGen_iff_eq_or_transGen.mp reached).resolve_left differs
    obtain ⟨event, succeeded, exact⟩ :=
      callEvent_yields wellFormed encloses (has_iff.mpr isInvocation)
    refine ⟨event, succeeded, fun other => ?_⟩
    rw [exact, happens]
    refine ⟨.inl, fun either => either.resolve_right fun assigned => ?_⟩
    obtain ⟨_, ⟨isAssignment, _⟩, _⟩ := assigned
    simp [has_iff.mp isAssignment] at isInvocation
  · rename_i noInvocation noAssignment
    refine yields_nothing fun event either => ?_
    rcases happens.mp either with ⟨_, _, callsOn, _⟩ | ⟨_, ⟨isAssignment, target, first, _⟩, _⟩
    · exact noInvocation (has_iff.mp callsOn.isInvocation)
    · obtain ⟨sources, parts⟩ := first.first found
      exact noAssignment target sources (has_iff.mp isAssignment) parts

end Rules.SetLoadFields

end ModelLint
