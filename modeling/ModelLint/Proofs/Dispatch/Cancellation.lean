import ModelLint.Proofs.Dispatch

namespace ModelLint.Dispatch

/-! What a run still does once it is cancelled.

A run is told apart from its calls: the calls that it makes, one after the other, and
what each of them is told about cancellation. Once a call on a node has asked for it,
the run goes on up to the next child of the root and makes no call behind it. -/

/-- A call as it was made. -/
structure Entry where
  call : Call
  /-- Whether cancellation had been asked for before the call. -/
  told : Bool
  outcome : Outcome

def outcomeOf (rules : List Rule) (root : String) (model : Model) (told : Bool) (call : Call) :
    Outcome :=
  rules[call.position]?.elim {} fun rule =>
    call.sight.outcome rule ⟨model, Path.join root model.filePath, told⟩

/-- Some calls made in turn. Each is told whether cancellation was asked for from the
start or by a call before it. -/
def log (rules : List Rule) (root : String) (model : Model) :
    (told : Bool) → List Call → List Entry
  | _, [] => []
  | told, call :: rest =>
      let outcome := outcomeOf rules root model told call
      ⟨call, told, outcome⟩ :: log rules root model (told || outcome.cancels) rest

/-- What a call that was made has put among the diagnostics. -/
def Entry.emits (rules : List Rule) (model : Model) (entry : Entry) : List Diagnostic :=
  rules[entry.call.position]?.elim [] fun rule =>
    diagnosticsOf rule (entry.call.sight.anchor model)
      (placeOf model (entry.call.sight.anchor model)) entry.outcome

/-- The record that some calls leave behind. -/
def recordOf (rules : List Rule) (root : String) (model : Model) (told : Bool)
    (made : List Call) : Record where
  diagnostics := (log rules root model told made).flatMap (Entry.emits rules model)
  cancelled := told || (log rules root model told made).any (·.outcome.cancels)

/-- The calls on some nodes, in their order. -/
def nodeCalls (rules : List Rule) (model : Model) (ids : List NodeId) : List Call :=
  (ids.map Sight.node).flatMap (callsOn rules model)

variable {model : Model} {root : String} {rules : List Rule} {told : Bool}

theorem map_call_log (made : List Call) : (log rules root model told made).map (·.call) = made := by
  induction made generalizing told with
  | nil => rfl
  | cons call rest ih => rw [log, List.map_cons, ih]

theorem log_append (first second : List Call) :
    log rules root model told (first ++ second) =
      log rules root model told first ++
        log rules root model (recordOf rules root model told first).cancelled second := by
  induction first generalizing told with
  | nil => simp [recordOf, log]
  | cons call rest ih =>
      rw [List.cons_append, log, ih, log, List.cons_append]
      simp [recordOf, log, Bool.or_assoc]

theorem recordOf_append (first second : List Call) :
    recordOf rules root model told (first ++ second) =
      ⟨(recordOf rules root model told first).diagnostics ++
          (recordOf rules root model (recordOf rules root model told first).cancelled
            second).diagnostics,
        (recordOf rules root model (recordOf rules root model told first).cancelled
          second).cancelled⟩ := by
  simp only [recordOf, log_append, List.flatMap_append, List.any_append, Bool.or_assoc]

theorem cancelled_recordOf_true (made : List Call) :
    (recordOf rules root model true made).cancelled = true := by
  simp [recordOf]

/-- Where nothing has been cancelled, no call has asked for it. -/
theorem not_cancels_of_recordOf {made : List Call}
    (uncancelled : (recordOf rules root model told made).cancelled = false) :
    ∀ entry ∈ log rules root model told made, entry.outcome.cancels = false := by
  intro entry member
  simp only [recordOf, Bool.or_eq_false_iff, List.any_eq_false] at uncancelled
  simpa using uncancelled.2 entry member

theorem exists_cancels_of_recordOf {made : List Call}
    (cancelled : (recordOf rules root model false made).cancelled = true) :
    ∃ entry ∈ log rules root model false made, entry.outcome.cancels = true := by
  simpa [recordOf] using cancelled

theorem sight_of_mem_log {sights : List Sight} {entry : Entry}
    (member : entry ∈ log rules root model told (sights.flatMap (callsOn rules model))) :
    entry.call.sight ∈ sights := by
  have called := List.mem_map_of_mem (f := Entry.call) member
  rw [map_call_log] at called
  obtain ⟨sight, shown, called⟩ := List.mem_flatMap.mp called
  rwa [(mem_callsOn.mp called).1]

theorem nodeCalls_append (first second : List NodeId) :
    nodeCalls rules model (first ++ second) =
      nodeCalls rules model first ++ nodeCalls rules model second := by
  simp [nodeCalls]

theorem nodeCalls_cons (id : NodeId) (rest : List NodeId) :
    nodeCalls rules model (id :: rest) =
      callsOn rules model (.node id) ++ nodeCalls rules model rest := by
  simp [nodeCalls]

theorem callAll_eq_recordOf {entries : List (Rule × Nat)}
    (listed : ∀ entry ∈ entries, rules[entry.2]? = some entry.1) (sight : Sight) :
    callAll (sight.anchor model) (placeOf model (sight.anchor model))
        (fun rule told => sight.outcome rule ⟨model, Path.join root model.filePath, told⟩)
        (entries.map (·.1)) told =
      recordOf rules root model told (entries.map fun entry => ⟨entry.2, sight⟩) := by
  induction entries generalizing told with
  | nil => simp [callAll, recordOf, log]
  | cons entry rest ih =>
      have here := listed entry (by simp)
      have later (other : Rule × Nat) (member : other ∈ rest) := listed other (by simp [member])
      simp only [List.map_cons, callAll, ih later]
      simp [recordOf, log, outcomeOf, Entry.emits, here, Bool.or_assoc]

theorem callAsked_eq_recordOf (sight : Sight) :
    callAll (sight.anchor model) (placeOf model (sight.anchor model))
        (fun rule told => sight.outcome rule ⟨model, Path.join root model.filePath, told⟩)
        (asked rules model sight) told =
      recordOf rules root model told (callsOn rules model sight) := by
  have named : asked rules model sight =
      (rules.zipIdx.filter fun entry =>
        (sight.interest? model).any entry.1.interests.contains).map (·.1) := by
    rw [asked]
    nth_rewrite 1 [← List.zipIdx_map_fst 0 rules]
    rw [List.filter_map]
    rfl
  rw [named, callsOn]
  exact callAll_eq_recordOf (fun entry selected =>
    List.mem_zipIdx_iff_getElem?.mp (List.mem_of_mem_filter selected)) sight

theorem showNode_eq_recordOf {id : NodeId} {node : Node} (found : model.nodes[id]? = some node) :
    showNode (.ofRules rules) (Path.join root model.filePath) model id node told =
      recordOf rules root model told (callsOn rules model (.node id)) := by
  have shown : (Sight.node id).interest? model = some (.node node.kind) := by
    simp [Sight.interest?, found]
  have place : placeOf model (some id) = .span node.span := by simp [placeOf, found]
  rw [showNode, wanting_eq_asked shown, ← place]
  exact callAsked_eq_recordOf (.node id)

theorem showSymbol_eq_recordOf {id : SymbolId} {symbol : Symbol}
    (found : model.symbols[id]? = some symbol) :
    showSymbol (.ofRules rules) (Path.join root model.filePath) model id symbol told =
      recordOf rules root model told (callsOn rules model (.symbol id)) := by
  have shown : (Sight.symbol id).interest? model = some (.symbol symbol.kind) := by
    simp [Sight.interest?, found]
  have anchor : (Sight.symbol id).anchor model = symbol.declaration := by
    simp [Sight.anchor, found]
  rw [showSymbol, wanting_eq_asked shown, ← anchor]
  exact callAsked_eq_recordOf (.symbol id)

/-- The symbols are all shown, whatever is asked for on the way. -/
theorem showSymbols_eq_recordOf {entries : List (Symbol × SymbolId)}
    (listed : ∀ entry ∈ entries, model.symbols[entry.2]? = some entry.1) :
    showSymbols (.ofRules rules) (Path.join root model.filePath) model entries told =
      recordOf rules root model told
        (((entries.map (·.2)).map Sight.symbol).flatMap (callsOn rules model)) := by
  induction entries generalizing told with
  | nil => simp [showSymbols, recordOf, log]
  | cons entry rest ih =>
      obtain ⟨symbol, id⟩ := entry
      have found : model.symbols[id]? = some symbol := listed (symbol, id) (by simp)
      have later (other : Symbol × SymbolId) (member : other ∈ rest) :=
        listed other (by simp [member])
      simp only [showSymbols, showSymbol_eq_recordOf found, ih later, List.map_cons,
        List.flatMap_cons, recordOf_append]

/-- The nodes after a given one are split at the next child of the root. -/
structure NextTop (model : Model) (between rest : List NodeId) : Prop where
  inner : ∀ id ∈ between, ¬ model.Lists model.root id
  next : ∀ id, rest.head? = some id → model.Lists model.root id

theorem isTop_iff (wellFormed : model.WellFormed) {id : NodeId} {node : Node}
    (found : model.nodes[id]? = some node) :
    node.parent = some model.root ↔ model.Lists model.root id := by
  constructor
  · exact Model.lists_of_parent wellFormed found
  · intro lists
    obtain ⟨again, againFound, link⟩ := wellFormed.linked model.root id lists
    obtain rfl : node = again := by simpa [found] using againFound
    exact link

/-- A cancelled run goes on up to the next child of the root. -/
theorem showNodes_cancelled (rules : List Rule) (root : String)
    (wellFormed : model.WellFormed) {ids : List NodeId}
    (inside : ∀ id ∈ ids, id < model.nodes.size) :
    ∃ between rest, ids = between ++ rest ∧ NextTop model between rest ∧
      (showNodes (.ofRules rules) (Path.join root model.filePath) model ids true).1 =
        recordOf rules root model true (nodeCalls rules model between) := by
  induction ids with
  | nil => exact ⟨[], [], rfl, ⟨by simp, by simp⟩, by simp [showNodes, nodeCalls, recordOf, log]⟩
  | cons id others ih =>
      obtain ⟨node, found⟩ := Model.found_of_lt_size (inside id (by simp))
      have top_iff := isTop_iff wellFormed found
      by_cases isTop : node.parent = some model.root
      · refine ⟨[], id :: others, rfl, ⟨by simp, ?_⟩, ?_⟩
        · intro next first
          obtain rfl : id = next := by simpa using first
          exact top_iff.mp isTop
        · simp [showNodes, found, isTop, nodeCalls, recordOf, log]
      · obtain ⟨between, rest, rfl, split, later⟩ :=
          ih fun other member => inside other (List.mem_cons_of_mem _ member)
        refine ⟨id :: between, rest, rfl, ⟨?_, split.next⟩, ?_⟩
        · intro other member
          rcases List.mem_cons.mp member with rfl | inBetween
          · exact fun lists => isTop (top_iff.mpr lists)
          · exact split.inner other inBetween
        · simp only [showNodes, found, isTop, and_false, if_false, showNode_eq_recordOf found,
            nodeCalls_cons, recordOf_append, cancelled_recordOf_true, later]

/-- What showing the nodes comes to: nobody cancels and all of them are shown, or the
calls on one of them are the first to cancel. -/
theorem showNodes_cases (wellFormed : model.WellFormed) {ids : List NodeId}
    (inside : ∀ id ∈ ids, id < model.nodes.size) :
    (showNodes (.ofRules rules) (Path.join root model.filePath) model ids false =
        (recordOf rules root model false (nodeCalls rules model ids), false) ∧
      (recordOf rules root model false (nodeCalls rules model ids)).cancelled = false) ∨
    ∃ before id between rest, ids = before ++ id :: (between ++ rest) ∧
      NextTop model between rest ∧
      (recordOf rules root model false (nodeCalls rules model before)).cancelled = false ∧
      (recordOf rules root model false (callsOn rules model (.node id))).cancelled = true ∧
      (showNodes (.ofRules rules) (Path.join root model.filePath) model ids false).1 =
        recordOf rules root model false (nodeCalls rules model (before ++ id :: between)) := by
  induction ids with
  | nil => exact .inl (by simp [showNodes, nodeCalls, recordOf, log])
  | cons id others ih =>
      have insideOthers : ∀ other ∈ others, other < model.nodes.size := fun other member =>
        inside other (List.mem_cons_of_mem _ member)
      obtain ⟨node, found⟩ := Model.found_of_lt_size (inside id (by simp))
      have shown : showNodes (.ofRules rules) (Path.join root model.filePath) model
          (id :: others) false =
          let here := recordOf rules root model false (callsOn rules model (.node id))
          let later := showNodes (.ofRules rules) (Path.join root model.filePath) model others
            here.cancelled
          (⟨here.diagnostics ++ later.1.diagnostics, later.1.cancelled⟩, later.2) := by
        simp only [showNodes, found, Bool.false_eq_true, false_and, if_false,
          showNode_eq_recordOf found]
      cases asks : (recordOf rules root model false (callsOn rules model (.node id))).cancelled with
      | true =>
          obtain ⟨between, rest, rfl, split, later⟩ :=
            showNodes_cancelled rules root wellFormed insideOthers
          refine .inr ⟨[], id, between, rest, rfl, split, by simp [nodeCalls, recordOf, log],
            asks, ?_⟩
          rw [shown, List.nil_append, nodeCalls_cons, recordOf_append]
          simp only [asks, later]
      | false =>
          rcases ih insideOthers with ⟨later, quiet⟩ |
            ⟨before, first, between, rest, rfl, split, quiet, cancels, later⟩
          · left
            rw [shown, nodeCalls_cons, recordOf_append]
            simp only [asks, later, quiet, and_self]
          · refine .inr ⟨id :: before, first, between, rest, rfl, split, ?_, cancels, ?_⟩
            · rw [nodeCalls_cons, recordOf_append]
              simp only [asks, quiet]
            · rw [shown, List.cons_append, nodeCalls_cons, recordOf_append]
              simp only [asks, later]

theorem calls_eq_append (tree : Tree) :
    calls rules model tree = nodeCalls rules model tree.preorder ++
      ((List.range model.symbols.size).map Sight.symbol).flatMap (callsOn rules model) := by
  simp [calls, Sight.all, nodeCalls]

theorem run_eq_of_uncancelled (wellFormed : model.WellFormed) {tree : Tree}
    (isTree : model.IsTree tree)
    (onNodes : showNodes (.ofRules rules) (Path.join root model.filePath) model tree.preorder
      false = (recordOf rules root model false (nodeCalls rules model tree.preorder), false))
    (quiet : (recordOf rules root model false
      (nodeCalls rules model tree.preorder)).cancelled = false) :
    run rules root model false =
      ⟨recordOf rules root model false (calls rules model tree), true⟩ := by
  have listed : ∀ entry ∈ model.symbols.toList.zipIdx, model.symbols[entry.2]? = some entry.1 :=
    fun entry member => by simpa using List.mem_zipIdx_iff_getElem?.mp member
  have positions : model.symbols.toList.zipIdx.map (·.2) = List.range model.symbols.size := by
    rw [List.zipIdx_map_snd]
    simp [List.range_eq_range']
  have onSymbols : showSymbols (.ofRules rules) (Path.join root model.filePath) model
      model.symbols.toList.zipIdx false = recordOf rules root model false
        (((List.range model.symbols.size).map .symbol).flatMap (callsOn rules model)) := by
    rw [← positions]
    exact showSymbols_eq_recordOf listed
  rw [calls_eq_append, recordOf_append]
  simp only [run, Bool.false_eq_true, if_false, wellFormed.walk_eq_ok isTree, onNodes, quiet,
    Bool.or_self, onSymbols]

theorem run_eq_of_cancelled (wellFormed : model.WellFormed) {tree : Tree}
    (isTree : model.IsTree tree) {made : List Call}
    (onNodes : (showNodes (.ofRules rules) (Path.join root model.filePath) model tree.preorder
      false).1 = recordOf rules root model false made)
    (cancels : (recordOf rules root model false made).cancelled = true) :
    run rules root model false = ⟨recordOf rules root model false made, false⟩ := by
  simp only [run, Bool.false_eq_true, if_false, wellFormed.walk_eq_ok isTree, onNodes, cancels,
    Bool.or_true, if_true]

/-- A call that cancels stands at the first node with such a call or behind it. -/
theorem mem_of_cancels {before between : List NodeId} {first id : NodeId} {entry : Entry}
    (quiet : (recordOf rules root model false (nodeCalls rules model before)).cancelled = false)
    (member : entry ∈ log rules root model false
      (nodeCalls rules model (before ++ first :: between)))
    (shown : entry.call.sight = .node id) (cancels : entry.outcome.cancels = true) :
    id ∈ first :: between := by
  rw [nodeCalls_append, log_append, quiet] at member
  rcases List.mem_append.mp member with early | late
  · have := not_cancels_of_recordOf quiet entry early
    simp [cancels] at this
  · have listed := sight_of_mem_log late
    simpa [shown] using listed

/-- From any node before the next child of the root on, that child is the same. -/
theorem NextTop.split_at {between rest : List NodeId} {first id : NodeId}
    (nextTop : NextTop model between rest) (before : List NodeId)
    (member : id ∈ first :: between) :
    ∃ early late, before ++ first :: between = early ++ id :: late ∧ NextTop model late rest := by
  rcases List.mem_cons.mp member with rfl | inBetween
  · exact ⟨before, between, rfl, nextTop⟩
  · obtain ⟨early, late, rfl⟩ := List.append_of_mem inBetween
    refine ⟨before ++ first :: early, late, by simp, ⟨fun other inLate => ?_, nextTop.next⟩⟩
    exact nextTop.inner other (by simp [inLate])

/-- A run over an accepted model, read off its calls. If it is cancelled beforehand, it
makes none. If a call on a node cancels it, it does not come to its end: it makes the
calls on all nodes before the next child of the root, and no others. Otherwise it makes
every call, even if one on a symbol cancels it, and comes to its end. -/
theorem run_eq_log (accepted : model.check = .ok ()) (rules : List Rule) (root : String)
    (cancelled : Bool) :
    ∃ (tree : Tree) (made : List Call), model.IsTree tree ∧
      (run rules root model cancelled).toRecord = recordOf rules root model cancelled made ∧
      (cancelled = true → made = [] ∧ (run rules root model cancelled).completed = false) ∧
      (∀ entry ∈ log rules root model cancelled made, ∀ id, entry.call.sight = .node id →
        entry.outcome.cancels = true →
          (run rules root model cancelled).completed = false ∧
          ∃ before between rest, tree.preorder = before ++ id :: (between ++ rest) ∧
            NextTop model between rest ∧
            made = nodeCalls rules model (before ++ id :: between)) ∧
      (cancelled = false →
        (∀ entry ∈ log rules root model cancelled made, ∀ id, entry.call.sight = .node id →
          entry.outcome.cancels = false) →
        made = calls rules model tree ∧ (run rules root model cancelled).completed = true) := by
  have wellFormed := Model.wellFormed_of_check accepted
  obtain ⟨tree, isTree⟩ := wellFormed.isTree
  cases cancelled with
  | true =>
      refine ⟨tree, [], isTree, ?_, ?_, ?_, ?_⟩
      · simp [run, recordOf, log]
      · simp [run]
      · simp [log]
      · simp
  | false =>
      have inside (id : NodeId) (member : id ∈ tree.preorder) : id < model.nodes.size :=
        (isTree.2.2.2 id).mp member
      rcases showNodes_cases wellFormed inside with
        ⟨onNodes, quiet⟩ | ⟨before, first, between, rest, order, nextTop, quiet, asks, onNodes⟩
      · have ran := run_eq_of_uncancelled wellFormed isTree onNodes quiet
        refine ⟨tree, calls rules model tree, isTree, by rw [ran], by simp, ?_, ?_⟩
        · intro entry member id shown cancels
          rw [calls_eq_append, log_append, quiet] at member
          rcases List.mem_append.mp member with onNode | onSymbol
          · have := not_cancels_of_recordOf quiet entry onNode
            simp [cancels] at this
          · have listed := sight_of_mem_log onSymbol
            simp [shown] at listed
        · intro _ _
          exact ⟨rfl, by rw [ran]⟩
      · have cancelled : (recordOf rules root model false
            (nodeCalls rules model (before ++ first :: between))).cancelled = true := by
          rw [nodeCalls_append, recordOf_append, quiet, nodeCalls_cons, recordOf_append]
          simp only [asks, cancelled_recordOf_true]
        have ran := run_eq_of_cancelled wellFormed isTree onNodes cancelled
        refine ⟨tree, nodeCalls rules model (before ++ first :: between), isTree, by rw [ran],
          by simp, ?_, ?_⟩
        · intro entry member id shown cancels
          obtain ⟨early, late, same, still⟩ :=
            nextTop.split_at before (mem_of_cancels quiet member shown cancels)
          refine ⟨by rw [ran], early, late, rest, ?_, still, by rw [same]⟩
          have regrouped : before ++ first :: (between ++ rest) =
              before ++ first :: between ++ rest := by simp
          rw [order, regrouped, same]
          simp
        · intro _ silent
          obtain ⟨entry, member, cancels⟩ := exists_cancels_of_recordOf cancelled
          obtain ⟨id, _, shown⟩ := List.mem_map.mp (sight_of_mem_log member)
          simp [silent entry member id shown.symm] at cancels

/-- A procedure that holds an exit statement, another one behind it, and a variable. -/
def twoExits : Model where
  filePath := "Exits.al"
  nodes := #[
    { kind := .compilationUnit, children := [1, 3] },
    { kind := .procedure, parent := some 0, children := [2] },
    { kind := .exitStatement, parent := some 1 },
    { kind := .exitStatement, parent := some 0 }]
  symbols := #[{ name := "Total", kind := .globalVariable }]

/-- A rule that cancels the run at every procedure. -/
def quitter : Rule where
  descriptor := { Descriptor.ruleFault with id := "TEST003" }
  interests := [.node .procedure]
  onNode _ _ := { cancels := true }

theorem run_eq_log_quitter :
    ∃ (tree : Tree) (made : List Call), twoExits.IsTree tree ∧
      (log [quitter, counter] "" twoExits false made).flatMap
        (Entry.emits [quitter, counter] twoExits) = [⟨⟨.file, ["node"], some 2⟩, "TEST002"⟩] ∧
      ∃ entry ∈ log [quitter, counter] "" twoExits false made, entry.outcome.cancels = true := by
  have accepted : twoExits.check = .ok () := by decide +kernel
  have computed : run [quitter, counter] "" twoExits false =
      ⟨⟨[⟨⟨.file, ["node"], some 2⟩, "TEST002"⟩], true⟩, false⟩ := by decide +kernel
  obtain ⟨tree, made, isTree, recorded, _⟩ := run_eq_log accepted [quitter, counter] "" false
  rw [computed] at recorded
  exact ⟨tree, made, isTree, (congrArg Record.diagnostics recorded).symm,
    exists_cancels_of_recordOf (congrArg Record.cancelled recorded).symm⟩

end ModelLint.Dispatch
