import ModelLint.Dispatch
import ModelLint.Proofs.Model.Ancestry
import ModelLint.Proofs.Registry

namespace ModelLint.Dispatch

/-! The calls that a run makes and what comes of them.

A run over an accepted model is determined by a list of calls, each made once. What a
call emits depends on its rule and on what the rule is shown, and on no other call. -/

/-- What a rule is shown. -/
inductive Sight where
  | node (id : NodeId)
  | symbol (id : SymbolId)
deriving DecidableEq

namespace Sight

def interest? (model : Model) : Sight → Option Interest
  | node id => model.nodes[id]?.map fun node => .node node.kind
  | symbol id => model.symbols[id]?.map fun symbol => .symbol symbol.kind

/-- The node itself, or the declaration of the symbol. -/
def anchor (model : Model) : Sight → Option NodeId
  | node id => some id
  | symbol id => model.symbols[id]?.bind (·.declaration)

def outcome (rule : Rule) (context : Context) : Sight → Outcome
  | node id => rule.onNode context id
  | symbol id => rule.onSymbol context id

/-- The nodes, each before those below it, and then the symbols in table order. -/
def all (model : Model) (tree : Tree) : List Sight :=
  tree.preorder.map node ++ (List.range model.symbols.size).map symbol

end Sight

/-- What a rule reports when it is shown something, followed by a fault if it fails. -/
def emission (root : String) (model : Model) (sight : Sight) (rule : Rule) : List Diagnostic :=
  let outcome := sight.outcome rule ⟨model, Path.join root model.filePath, false⟩
  (outcome.findings.map fun finding => { finding with ruleId := rule.descriptor.id }) ++
    match outcome.fault with
    | none => []
    | some fault => [{
        ruleId := "CIG9999"
        place := placeOf model (sight.anchor model)
        args := [rule.descriptor.id, fault.reason]
        anchor := sight.anchor model }]

/-- A call of the rule at a position among the rules. -/
structure Call where
  position : Nat
  sight : Sight
deriving DecidableEq

def callsOn (rules : List Rule) (model : Model) (sight : Sight) : List Call :=
  (rules.zipIdx.filter fun entry => (sight.interest? model).any entry.1.interests.contains).map
    fun entry => ⟨entry.2, sight⟩

def calls (rules : List Rule) (model : Model) (tree : Tree) : List Call :=
  (Sight.all model tree).flatMap (callsOn rules model)

def emitted (rules : List Rule) (root : String) (model : Model) (call : Call) : List Diagnostic :=
  rules[call.position]?.elim [] (emission root model call.sight)

/-- The rule of a call asks for what it is shown. -/
def Wanted (rules : List Rule) (model : Model) (call : Call) : Prop :=
  ∃ rule interest, rules[call.position]? = some rule ∧
    call.sight.interest? model = some interest ∧ interest ∈ rule.interests

/-- A rule that never asks for the run over a model to be cancelled. -/
def Patient (root : String) (model : Model) (rule : Rule) : Prop :=
  ∀ sight : Sight,
    (sight.outcome rule ⟨model, Path.join root model.filePath, false⟩).cancels = false

variable {model : Model} {root : String} {rules : List Rule}

theorem diagnosticsOf_eq_emission (rule : Rule) (sight : Sight) :
    diagnosticsOf rule (sight.anchor model) (placeOf model (sight.anchor model))
        (sight.outcome rule ⟨model, Path.join root model.filePath, false⟩) =
      emission root model sight rule := by
  rw [diagnosticsOf, emission]
  cases (sight.outcome rule ⟨model, Path.join root model.filePath, false⟩).fault with
  | none => rfl
  | some fault => rfl

/-- The rules that ask for something, in their order. -/
def asked (rules : List Rule) (model : Model) (sight : Sight) : List Rule :=
  rules.filter fun rule => (sight.interest? model).any rule.interests.contains

def emissions (rules : List Rule) (root : String) (model : Model) (sight : Sight) :
    List Diagnostic :=
  (asked rules model sight).flatMap (emission root model sight)

theorem wanting_eq_asked {sight : Sight} {interest : Interest}
    (shown : sight.interest? model = some interest) :
    (Registry.ofRules rules).wanting interest = asked rules model sight := by
  rw [Registry.wanting_ofRules, asked, shown]
  rfl

theorem callAll_eq (patient : ∀ rule ∈ rules, Patient root model rule) (sight : Sight) :
    callAll (sight.anchor model) (placeOf model (sight.anchor model))
        (fun rule cancelled => sight.outcome rule ⟨model, Path.join root model.filePath, cancelled⟩)
        rules false =
      ⟨rules.flatMap (emission root model sight), false⟩ := by
  induction rules with
  | nil => rfl
  | cons rule rest ih =>
      have later := ih fun other member => patient other (List.mem_cons_of_mem _ member)
      simp only [callAll, patient rule (by simp) sight, Bool.or_self, later, List.flatMap_cons,
        diagnosticsOf_eq_emission]

theorem callAsked_eq (patient : ∀ rule ∈ rules, Patient root model rule) (sight : Sight) :
    callAll (sight.anchor model) (placeOf model (sight.anchor model))
        (fun rule cancelled => sight.outcome rule ⟨model, Path.join root model.filePath, cancelled⟩)
        (asked rules model sight) false =
      ⟨emissions rules root model sight, false⟩ :=
  callAll_eq (fun rule member => patient rule (List.mem_of_mem_filter member)) sight

theorem showNode_eq (patient : ∀ rule ∈ rules, Patient root model rule) {id : NodeId} {node : Node}
    (found : model.nodes[id]? = some node) :
    showNode (.ofRules rules) (Path.join root model.filePath) model id node false =
      ⟨emissions rules root model (.node id), false⟩ := by
  have shown : (Sight.node id).interest? model = some (.node node.kind) := by
    simp [Sight.interest?, found]
  have place : placeOf model (some id) = .span node.span := by simp [placeOf, found]
  rw [showNode, wanting_eq_asked shown, ← place]
  exact callAsked_eq patient (.node id)

theorem showSymbol_eq (patient : ∀ rule ∈ rules, Patient root model rule) {id : SymbolId}
    {symbol : Symbol} (found : model.symbols[id]? = some symbol) :
    showSymbol (.ofRules rules) (Path.join root model.filePath) model id symbol false =
      ⟨emissions rules root model (.symbol id), false⟩ := by
  have shown : (Sight.symbol id).interest? model = some (.symbol symbol.kind) := by
    simp [Sight.interest?, found]
  have anchor : (Sight.symbol id).anchor model = symbol.declaration := by
    simp [Sight.anchor, found]
  rw [showSymbol, wanting_eq_asked shown, ← anchor]
  exact callAsked_eq patient (.symbol id)

theorem showNodes_eq (patient : ∀ rule ∈ rules, Patient root model rule) {ids : List NodeId}
    (inside : ∀ id ∈ ids, id < model.nodes.size) :
    showNodes (.ofRules rules) (Path.join root model.filePath) model ids false =
      (⟨(ids.map Sight.node).flatMap (emissions rules root model), false⟩, false) := by
  induction ids with
  | nil => rfl
  | cons id rest ih =>
      obtain ⟨node, found⟩ := Model.found_of_lt_size (inside id (by simp))
      have later := ih fun other member => inside other (List.mem_cons_of_mem _ member)
      simp only [showNodes, found, Bool.false_eq_true, false_and, if_false,
        showNode_eq patient found, later, List.map_cons, List.flatMap_cons]

theorem showSymbols_eq (patient : ∀ rule ∈ rules, Patient root model rule)
    {entries : List (Symbol × SymbolId)}
    (listed : ∀ entry ∈ entries, model.symbols[entry.2]? = some entry.1) :
    showSymbols (.ofRules rules) (Path.join root model.filePath) model entries false =
      ⟨((entries.map (·.2)).map Sight.symbol).flatMap (emissions rules root model), false⟩ := by
  induction entries with
  | nil => rfl
  | cons entry rest ih =>
      obtain ⟨symbol, id⟩ := entry
      have later := ih fun other member => listed other (List.mem_cons_of_mem _ member)
      simp only [showSymbols, showSymbol_eq patient (listed (symbol, id) (by simp)), later,
        List.map_cons, List.flatMap_cons]

theorem run_eq_emissions (wellFormed : model.WellFormed) {tree : Tree} (isTree : model.IsTree tree)
    (patient : ∀ rule ∈ rules, Patient root model rule) :
    run rules root model false =
      ⟨⟨(Sight.all model tree).flatMap (emissions rules root model), false⟩, true⟩ := by
  have walked := wellFormed.walk_eq_ok isTree
  have onNodes := showNodes_eq patient fun id member => (isTree.2.2.2 id).mp member
  have listed : ∀ entry ∈ model.symbols.toList.zipIdx, model.symbols[entry.2]? = some entry.1 :=
    fun entry member => by simpa using List.mem_zipIdx_iff_getElem?.mp member
  have onSymbols := showSymbols_eq patient listed
  have positions : model.symbols.toList.zipIdx.map (·.2) = List.range model.symbols.size := by
    rw [List.zipIdx_map_snd]
    simp [List.range_eq_range']
  rw [positions] at onSymbols
  simp only [run, Bool.false_eq_true, if_false, walked, onNodes, Bool.or_self, onSymbols,
    Sight.all, List.flatMap_append]

/-- Two models that are walked alike make the same run, if the rules emit the same on both. -/
theorem run_congr {left right : Model} {leftRoot rightRoot : String} (leftFormed : left.WellFormed)
    (rightFormed : right.WellFormed) (sameWalk : left.walk = right.walk)
    (sameSymbols : left.symbols.size = right.symbols.size)
    (leftPatient : ∀ rule ∈ rules, Patient leftRoot left rule)
    (rightPatient : ∀ rule ∈ rules, Patient rightRoot right rule)
    (same : ∀ sight, emissions rules leftRoot left sight = emissions rules rightRoot right sight) :
    run rules leftRoot left false = run rules rightRoot right false := by
  obtain ⟨leftTree, isLeft⟩ := leftFormed.isTree
  obtain ⟨rightTree, isRight⟩ := rightFormed.isTree
  have samePreorder : leftTree.preorder = rightTree.preorder := by
    rw [leftFormed.walk_eq_ok isLeft, rightFormed.walk_eq_ok isRight] at sameWalk
    exact Except.ok.inj sameWalk
  have sameSights : Sight.all left leftTree = Sight.all right rightTree := by
    rw [Sight.all, Sight.all, samePreorder, sameSymbols]
  rw [run_eq_emissions leftFormed isLeft leftPatient,
    run_eq_emissions rightFormed isRight rightPatient, sameSights, funext same]

theorem mem_callsOn {sight : Sight} {call : Call} :
    call ∈ callsOn rules model sight ↔ call.sight = sight ∧ Wanted rules model call := by
  simp only [callsOn, List.mem_map, List.mem_filter, Prod.exists, List.mem_zipIdx_iff_getElem?,
    Option.any_eq_true, List.contains_iff_mem]
  constructor
  · intro given
    obtain ⟨rule, position, ⟨found, interest, shown, wanted⟩, rfl⟩ := given
    exact ⟨rfl, rule, interest, found, shown, wanted⟩
  · intro given
    obtain ⟨rfl, rule, interest, found, shown, wanted⟩ := given
    exact ⟨rule, call.position, ⟨found, interest, shown, wanted⟩, rfl⟩

theorem callsOn_nodup (sight : Sight) : (callsOn rules model sight).Nodup := by
  have distinct : (rules.zipIdx.map (·.2)).Nodup := by
    rw [List.zipIdx_map_snd]
    exact List.nodup_range'
  apply List.Nodup.of_map (·.position)
  rw [callsOn, List.map_map]
  exact (List.filter_sublist.map _).nodup distinct

theorem Wanted.mem_all {tree : Tree} (isTree : model.IsTree tree) {call : Call}
    (wanted : Wanted rules model call) : call.sight ∈ Sight.all model tree := by
  obtain ⟨_, interest, _, shown, _⟩ := wanted
  cases seen : call.sight with
  | node id =>
      obtain ⟨node, found, _⟩ := Option.map_eq_some_iff.mp (seen ▸ shown)
      simp [Sight.all, (isTree.2.2.2 id).mpr (Model.lt_size_of_found found)]
  | symbol id =>
      obtain ⟨symbol, found, _⟩ := Option.map_eq_some_iff.mp (seen ▸ shown)
      simp [Sight.all, (Array.getElem?_eq_some_iff.mp found).1]

theorem all_nodup {tree : Tree} (isTree : model.IsTree tree) : (Sight.all model tree).Nodup := by
  refine List.nodup_append.mpr ⟨?_, ?_, ?_⟩
  · exact isTree.2.2.1.map fun left right same => by simpa using same
  · exact List.nodup_range.map fun left right same => by simpa using same
  · simp

theorem calls_nodup {tree : Tree} (isTree : model.IsTree tree) :
    (calls rules model tree).Nodup := by
  refine List.nodup_flatMap.mpr ⟨fun sight _ => callsOn_nodup sight, ?_⟩
  refine (all_nodup isTree).imp fun differ => ?_
  intro call first second
  exact differ ((mem_callsOn.mp first).1.symm.trans (mem_callsOn.mp second).1)

theorem mem_calls {tree : Tree} (isTree : model.IsTree tree) {call : Call} :
    call ∈ calls rules model tree ↔ Wanted rules model call := by
  simp only [calls, List.mem_flatMap, mem_callsOn]
  constructor
  · intro given
    obtain ⟨_, _, _, wanted⟩ := given
    exact wanted
  · intro wanted
    exact ⟨call.sight, wanted.mem_all isTree, rfl, wanted⟩

/-- What some calls on one sight emit is read off their rules. -/
theorem flatMap_emitted {entries : List (Rule × Nat)}
    (listed : ∀ entry ∈ entries, rules[entry.2]? = some entry.1) (sight : Sight) :
    (entries.map fun entry => (⟨entry.2, sight⟩ : Call)).flatMap (emitted rules root model) =
      (entries.map (·.1)).flatMap (emission root model sight) := by
  rw [List.flatMap_map, List.flatMap_map]
  refine List.flatMap_congr fun entry member => ?_
  simp [emitted, listed entry member]

/-- What the calls of some of the rules emit is what these rules emit by themselves. -/
theorem flatMap_callsOn_filter (keeps : Nat → Bool) (sight : Sight) :
    ((callsOn rules model sight).filter fun call => keeps call.position).flatMap
        (emitted rules root model) =
      emissions ((rules.zipIdx.filter fun entry => keeps entry.2).map (·.1)) root model sight := by
  have listed : ∀ entry ∈ (rules.zipIdx.filter fun entry => keeps entry.2).filter fun entry =>
      (sight.interest? model).any entry.1.interests.contains,
      rules[entry.2]? = some entry.1 := fun entry selected =>
    List.mem_zipIdx_iff_getElem?.mp (List.mem_of_mem_filter (List.mem_of_mem_filter selected))
  rw [emissions, asked, List.filter_map, callsOn, List.filter_map]
  refine Eq.trans ?_ (flatMap_emitted listed sight)
  rw [List.filter_filter, List.filter_filter]
  simp only [Function.comp_def, Bool.and_comm]

theorem flatMap_calls_filter (keeps : Nat → Bool) (tree : Tree) :
    ((calls rules model tree).filter fun call => keeps call.position).flatMap
        (emitted rules root model) =
      (Sight.all model tree).flatMap
        (emissions ((rules.zipIdx.filter fun entry => keeps entry.2).map (·.1)) root model) := by
  rw [calls, List.filter_flatMap, List.flatMap_assoc]
  simp only [flatMap_callsOn_filter]

theorem flatMap_calls (tree : Tree) :
    (calls rules model tree).flatMap (emitted rules root model) =
      (Sight.all model tree).flatMap (emissions rules root model) := by
  simpa only [List.filter_true, List.zipIdx_map_fst] using
    flatMap_calls_filter (fun _ => true) tree

theorem zipIdx_filter_ne (left right : List Rule) (rule : Rule) :
    ((left ++ rule :: right).zipIdx.filter fun entry => entry.2 ≠ left.length).map (·.1) =
      left ++ right := by
  have before : (left.zipIdx.filter fun entry => entry.2 ≠ left.length) = left.zipIdx := by
    refine List.filter_eq_self.mpr fun entry member => ?_
    have bound := List.snd_lt_of_mem_zipIdx member
    simp only [ne_eq, decide_eq_true_eq]
    omega
  have after : ((right.zipIdx (left.length + 1)).filter fun entry => entry.2 ≠ left.length) =
      right.zipIdx (left.length + 1) := by
    refine List.filter_eq_self.mpr fun entry member => ?_
    have bound := List.le_snd_of_mem_zipIdx member
    simp only [ne_eq, decide_eq_true_eq]
    omega
  rw [List.zipIdx_append, List.zipIdx_cons, List.filter_append, before, Nat.zero_add,
    List.filter_cons_of_neg (by simp), after, List.map_append, List.zipIdx_map_fst,
    List.zipIdx_map_fst]

/-- A run over an accepted model whose rules do not cancel it comes to its end. It emits
what its calls emit, in order; every rule is called once on everything it asks for and
on nothing else; and without one of the rules the rest is emitted just the same. -/
theorem run_eq_calls (accepted : model.check = .ok ())
    (patient : ∀ rule ∈ rules, Patient root model rule) :
    ∃ tree : Tree, model.IsTree tree ∧
      run rules root model false =
        ⟨⟨(calls rules model tree).flatMap (emitted rules root model), false⟩, true⟩ ∧
      (calls rules model tree).Nodup ∧
      (∀ call, call ∈ calls rules model tree ↔ Wanted rules model call) ∧
      ∀ left rule right, rules = left ++ rule :: right →
        run (left ++ right) root model false =
          ⟨⟨((calls rules model tree).filter fun call => call.position ≠ left.length).flatMap
            (emitted rules root model), false⟩, true⟩ := by
  have wellFormed := Model.wellFormed_of_check accepted
  obtain ⟨tree, isTree⟩ := wellFormed.isTree
  refine ⟨tree, isTree, ?_, calls_nodup isTree, fun call => mem_calls isTree, ?_⟩
  · rw [run_eq_emissions wellFormed isTree patient, flatMap_calls]
  · intro left rule right split
    have others : ∀ other ∈ left ++ right, Patient root model other := by
      intro other member
      apply patient other
      rcases List.mem_append.mp member with inLeft | inRight
      · simp [split, inLeft]
      · simp [split, inRight]
    subst split
    rw [run_eq_emissions wellFormed isTree others,
      flatMap_calls_filter fun position => decide (position ≠ left.length), zipIdx_filter_ne]

/-- A file with a single exit statement and one global variable. -/
def exitFile : Model where
  filePath := "Exit.al"
  nodes := #[
    { kind := .compilationUnit, children := [1] },
    { kind := .exitStatement, span := ⟨2, 1, 10, 5⟩, parent := some 0 }]
  symbols := #[{ name := "Total", kind := .globalVariable }]

/-- A rule that asks twice for the same kind, and reports before it fails. -/
def halfway : Rule where
  descriptor := { Descriptor.ruleFault with id := "TEST001" }
  interests := [.node .exitStatement, .node .exitStatement]
  onNode _ id := {
    findings := [{ place := .file, args := ["exit"], anchor := some id }]
    fault := some (.failure "boom") }

/-- A rule that wants to see nodes and symbols. -/
def counter : Rule where
  descriptor := { Descriptor.ruleFault with id := "TEST002" }
  interests := [.node .exitStatement, .symbol .globalVariable]
  onNode _ id := { findings := [{ place := .file, args := ["node"], anchor := some id }] }
  onSymbol _ _ := { findings := [{ place := .file, args := ["symbol"], anchor := none }] }

theorem run_eq_calls_halfway :
    ∃ tree : Tree, exitFile.IsTree tree ∧ (calls [halfway, counter] exitFile tree).Nodup ∧
      (calls [halfway, counter] exitFile tree).flatMap (emitted [halfway, counter] "" exitFile) = [
        ⟨⟨.file, ["exit"], some 1⟩, "TEST001"⟩,
        ⟨⟨.span ⟨2, 1, 10, 5⟩, ["TEST001", "boom"], some 1⟩, "CIG9999"⟩,
        ⟨⟨.file, ["node"], some 1⟩, "TEST002"⟩,
        ⟨⟨.file, ["symbol"], none⟩, "TEST002"⟩] := by
  have accepted : exitFile.check = .ok () := by decide +kernel
  have patient : ∀ rule ∈ [halfway, counter], Patient "" exitFile rule := by
    intro rule member sight
    simp only [List.mem_cons, List.not_mem_nil, or_false] at member
    rcases member with rfl | rfl <;> cases sight <;> rfl
  obtain ⟨tree, isTree, answered, distinct, _, _⟩ := run_eq_calls accepted patient
  have computed : run [halfway, counter] "" exitFile false = ⟨⟨[
      ⟨⟨.file, ["exit"], some 1⟩, "TEST001"⟩,
      ⟨⟨.span ⟨2, 1, 10, 5⟩, ["TEST001", "boom"], some 1⟩, "CIG9999"⟩,
      ⟨⟨.file, ["node"], some 1⟩, "TEST002"⟩,
      ⟨⟨.file, ["symbol"], none⟩, "TEST002"⟩], false⟩, true⟩ := by
    decide +kernel
  exact ⟨tree, isTree, distinct, congrArg (·.diagnostics) (answered.symm.trans computed)⟩

end ModelLint.Dispatch
