import Mathlib.Data.List.Flatten
import ModelLint.Proofs.Rules.Faultless

namespace ModelLint

/-! The appends that the rule about text builders reports, found on one way down the tree.

The rule looks up from each append: the first loop, procedure or trigger that it meets decides
whether the append is in a loop, and the first object decides whether it matters. A walk down the
tree that takes both facts along finds the same nodes. -/

namespace Dispatch

variable {model : Model} {root : String} {rule : Rule} {sight : Sight}

theorem ruleId_of_mem_emission {diagnostic : Diagnostic}
    (emitted : diagnostic ∈ emission root model sight rule) :
    diagnostic.ruleId = rule.descriptor.id ∨ diagnostic.ruleId = "CIG9999" := by
  rcases List.mem_append.mp emitted with reported | failed
  · obtain ⟨finding, _, rfl⟩ := List.mem_map.mp reported
    exact .inl rfl
  · split at failed
    · simp at failed
    · obtain rfl := List.mem_singleton.mp failed
      exact .inr rfl

/-- Among the diagnostics of all rules, a code picks those of the one rule that has it. -/
theorem filter_emissions {before after : List Rule} (reserved : rule.descriptor.id ≠ "CIG9999")
    (apart : ∀ other ∈ before ++ after, other.descriptor.id ≠ rule.descriptor.id) :
    (emissions (before ++ rule :: after) root model sight).filter
        (·.ruleId = rule.descriptor.id) =
      (emissions [rule] root model sight).filter (·.ruleId = rule.descriptor.id) := by
  have silent : ∀ others : List Rule, (∀ other ∈ others, other ∈ before ++ after) →
      (emissions others root model sight).filter (·.ruleId = rule.descriptor.id) = [] := by
    intro others among
    refine List.filter_eq_nil_iff.mpr fun diagnostic emitted => ?_
    obtain ⟨other, isAsked, byOther⟩ := List.mem_flatMap.mp emitted
    have differs := apart other (among other (List.mem_of_mem_filter isAsked))
    rcases ruleId_of_mem_emission byOther with same | same
    · simpa [same] using differs
    · simpa [same] using reserved.symm
  have split : emissions (before ++ rule :: after) root model sight =
      emissions before root model sight ++ emissions [rule] root model sight ++
        emissions after root model sight := by
    have parts : before ++ rule :: after = before ++ [rule] ++ after := by simp
    rw [parts]
    simp only [emissions, asked, List.filter_append, List.flatMap_append]
  rw [split, List.filter_append, List.filter_append,
    silent before fun other member => List.mem_append_left _ member,
    silent after fun other member => List.mem_append_right _ member, List.nil_append,
    List.append_nil]

end Dispatch

namespace Rules.TextBuilder

open Dispatch (Sight Patient emission emissions asked)

/-- What a walk down the tree knows of the place that it has come to. -/
structure Scope where
  /-- Whether the innermost loop, procedure or trigger around the place is a loop. -/
  inLoop : Bool := false
  /-- The innermost object around the place. -/
  object : Option NodeId := none

/-- Whether a node extends a variable of a text type. -/
def extendsText (model : Model) (node : Node) : Bool :=
  node.kind = .compoundAssignment && Text.trimmed node.name = "+=" &&
    node.children.head?.any (model.Has fun target =>
      target.kind = .identifier && target.symbol.any fun symbol =>
        model.symbols[symbol]?.any fun extended =>
          extended.kind.isVariable && extended.type.kind ∈ [.text, .code, .bigText])

/-- Whether a node declares a symbol that is obsolete. -/
def isObsolete (model : Model) : NodeId → Bool :=
  model.Has fun node => node.declares.any fun symbol => model.symbols[symbol]?.any (·.isObsolete)

namespace Scope

/-- The scope of what is right below a node. -/
def below (scope : Scope) (id : NodeId) (node : Node) : Scope where
  inLoop :=
    if node.kind ∈ [.forLoop, .whileLoop, .repeatLoop] then true
    else if node.kind ∈ [.procedure, .trigger] then false
    else scope.inLoop
  object := if node.kind.objectKind?.isSome then some id else scope.object

/-- Whether a node of this scope is to be reported. -/
def picks (scope : Scope) (model : Model) (node : Node) : Bool :=
  extendsText model node && scope.inLoop && !scope.object.any (isObsolete model)

end Scope

/-- The nodes of a tree that are to be reported, given the scope of its root: one walk down, each
node before those below it. -/
def appends (model : Model) (scope : Scope) : Tree → List NodeId
  | .node id content branches =>
      (if scope.picks model content then [id] else []) ++
        branches.flatMap (appends model (scope.below id content))

variable {model : Model} {tree : Tree} {id : NodeId} {node : Node} {line : List NodeId}

/-- The scope of a node, put together from the nodes above it, nearest first. -/
def Scope.around (model : Model) : List NodeId → Scope
  | [] => {}
  | id :: outer => model.nodes[id]?.elim (around model outer) ((around model outer).below id)

theorem around_cons (found : model.nodes[id]? = some node) (outer : List NodeId) :
    Scope.around model (id :: outer) = (Scope.around model outer).below id node := by
  simp [Scope.around, found]

theorem loopFirst_eq_ok (inside : ∀ outer ∈ line, outer < model.nodes.size) :
    loopFirst model line = .ok (Scope.around model line).inLoop := by
  induction line with
  | nil => rfl
  | cons nearest outer ih =>
      obtain ⟨node, found⟩ := Model.found_of_lt_size (inside nearest (by simp))
      have later := ih fun other member => inside other (List.mem_cons_of_mem _ member)
      rw [around_cons found]
      simp only [loopFirst, Model.kind_eq_ok found, later, bind, Except.bind, Scope.below]
      cases node.kind <;> rfl

theorem object_around (inside : ∀ outer ∈ line, outer < model.nodes.size) :
    (Scope.around model line).object = line.find? (model.Has (·.kind.objectKind?.isSome)) := by
  induction line with
  | nil => rfl
  | cons nearest outer ih =>
      obtain ⟨node, found⟩ := Model.found_of_lt_size (inside nearest (by simp))
      have later := ih fun other member => inside other (List.mem_cons_of_mem _ member)
      rw [around_cons found, List.find?_cons, Scope.below, later]
      cases isObject : node.kind.objectKind?.isSome <;> simp [Model.Has, found, isObject]

theorem declaresObsolete_eq_ok (wellFormed : model.WellFormed) (inside : id < model.nodes.size) :
    model.declaresObsolete id = .ok (isObsolete model id) := by
  obtain ⟨node, found⟩ := Model.found_of_lt_size inside
  simp only [Model.declaresObsolete, Model.node_eq_ok found, isObsolete, Model.Has, found, bind,
    Except.bind, Option.any_some]
  cases declared : node.declares with
  | none => rfl
  | some symbol =>
      obtain ⟨known, isKnown⟩ :=
        Model.symbol_of_lt_size (wellFormed.nodeSymbols id node found symbol (.inr declared))
      simp [Model.symbol_eq_ok isKnown, isKnown, pure, Except.pure]

/-- An append is no object, so that the object around it is above it. -/
theorem inObsoleteObject_eq_ok (wellFormed : model.WellFormed) (above : model.Line id line)
    (found : model.nodes[id]? = some node) (noObject : node.kind.objectKind? = none) :
    model.inObsoleteObject id =
      .ok ((Scope.around model line).object.any (isObsolete model)) := by
  have inside := above.inside_self wellFormed
  have lineInside : ∀ outer ∈ line, outer < model.nodes.size := fun outer member =>
    inside outer (List.mem_cons_of_mem _ member)
  have nearest : model.enclosingObject id = .ok (Scope.around model line).object := by
    simp only [Model.enclosingObject, above.ancestorsAndSelf_eq_ok wellFormed, bind, Except.bind]
    rw [Model.findNode_eq_ok inside, List.find?_cons, object_around lineInside]
    simp [Model.Has, found, noObject]
  simp only [Model.inObsoleteObject, nearest, bind, Except.bind]
  cases around : (Scope.around model line).object with
  | none => rfl
  | some object =>
      have member := List.mem_of_find?_eq_some ((object_around lineInside).symm.trans around)
      exact declaresObsolete_eq_ok wellFormed (lineInside object member)

theorem isText_iff {kind : TypeKind} : kind.isText = true ↔ kind ∈ [.text, .code, .bigText] := by
  cases kind <;> decide

theorem extendedText_eq_ok (wellFormed : model.WellFormed) (found : model.nodes[id]? = some node)
    (isCompound : node.kind = .compoundAssignment) :
    ∃ extended, extendedText model node = .ok extended ∧
      extended.isSome = extendsText model node := by
  unfold extendedText extendsText
  by_cases isAppend : Text.trimmed node.name = "+="
  · cases first : node.children.head? with
    | none => exact ⟨none, by simp [isAppend, pure, Except.pure], by simp⟩
    | some target =>
        have inside := Model.children_inside wellFormed found target (List.mem_of_mem_head? first)
        rcases (Model.identifierSymbol_finds inside).cases with
          ⟨isNone, unnamed⟩ | ⟨symbol, isSome, ⟨targetNode, targetFound, isName, refers⟩, _⟩
        · refine ⟨none, by simp [isAppend, isNone, bind, Except.bind, pure, Except.pure], ?_⟩
          obtain ⟨targetNode, targetFound⟩ := Model.found_of_lt_size inside
          by_cases isName : targetNode.kind = .identifier
          · have nameless : targetNode.symbol = none :=
              Option.eq_none_iff_forall_ne_some.mpr fun symbol refers =>
                unnamed symbol ⟨targetNode, targetFound, isName, refers⟩
            simp [Model.Has, targetFound, nameless]
          · simp [Model.Has, targetFound, isName]
        · obtain ⟨extended, known⟩ := Model.symbol_of_lt_size
            (wellFormed.nodeSymbols target targetNode targetFound symbol (.inl refers))
          refine ⟨if extended.kind.isVariable && extended.type.kind.isText then some extended
            else none, ?_, ?_⟩
          · simp [isAppend, isSome, Model.symbol_eq_ok known, bind, Except.bind, pure, Except.pure]
          · simp only [isCompound, isAppend, Model.Has, targetFound, isName, refers, known,
              Option.any_some, decide_true, Bool.true_and, ← isText_iff, Bool.decide_eq_true]
            cases extended.kind.isVariable && extended.type.kind.isText <;> rfl
  · exact ⟨none, by simp [isAppend, pure, Except.pure], by simp [isAppend]⟩

/-- What the rule reports at a compound assignment is decided by the scope that the nodes above it
make up. -/
theorem check_anchor (wellFormed : model.WellFormed) (above : model.Line id line)
    (found : model.nodes[id]? = some node) (isCompound : node.kind = .compoundAssignment) :
    ∃ findings, check model id = .ok findings ∧
      findings.map (·.anchor) =
        if (Scope.around model line).picks model node then [some id] else [] := by
  have lineInside : ∀ outer ∈ line, outer < model.nodes.size := fun outer member =>
    above.inside_self wellFormed outer (List.mem_cons_of_mem _ member)
  have obsolete := inObsoleteObject_eq_ok wellFormed above found
    (by simp [isCompound, NodeKind.objectKind?])
  obtain ⟨extended, read, exact⟩ := extendedText_eq_ok wellFormed found isCompound
  simp only [check, Model.node_eq_ok found, read, above.ancestors_eq_ok wellFormed,
    loopFirst_eq_ok lineInside, obsolete, Model.findingAt, bind, Except.bind, pure, Except.pure,
    Scope.picks, ← exact]
  cases extended with
  | none => exact ⟨[], rfl, by simp⟩
  | some text =>
      cases (Scope.around model line).inLoop with
      | false => exact ⟨[], rfl, by simp⟩
      | true =>
          cases (Scope.around model line).object.any (isObsolete model) with
          | true => exact ⟨[], rfl, by simp⟩
          | false => exact ⟨_, rfl, by simp⟩

/-- The nodes at which the rule reports when it is shown some node. -/
def reportedAt (root : String) (model : Model) (id : NodeId) : List (Option NodeId) :=
  ((emissions [rule] root model (.node id)).filter (·.ruleId = descriptor.id)).map (·.anchor)

theorem reportedAt_eq (wellFormed : model.WellFormed) (root : String) (above : model.Line id line)
    (found : model.nodes[id]? = some node) :
    reportedAt root model id =
      if (Scope.around model line).picks model node then [some id] else [] := by
  have shown : (Sight.node id).interest? model = some (.node node.kind) := by
    simp [Sight.interest?, found]
  by_cases isCompound : node.kind = .compoundAssignment
  · obtain ⟨findings, checked, anchors⟩ := check_anchor wellFormed above found isCompound
    rw [← anchors]
    simp [reportedAt, emissions, asked, shown, isCompound, rule, emission, Sight.outcome, checked,
      Outcome.ofCheck, List.filter_map, Function.comp_def]
  · have unwanted : (.node node.kind : Interest) ≠ .node .compoundAssignment := by
      simpa using isCompound
    simp [reportedAt, emissions, asked, shown, unwanted, rule, isCompound, Scope.picks,
      extendsText]

/-- Given the scope of its root, a walk down a tree finds what the rule reports at its nodes. -/
theorem flatMap_reportedAt (wellFormed : model.WellFormed) (root : String)
    (fits : tree.Fits model) (above : model.Line tree.id line) :
    tree.preorder.flatMap (reportedAt root model) =
      (appends model (Scope.around model line) tree).map some := by
  -- One level further down, the line is longer by the node that the walk has just left.
  induction fits generalizing line with
  | @node id content branches found listed fit ih =>
      have each : ∀ inner ∈ branches, inner.preorder.flatMap (reportedAt root model) =
          (appends model ((Scope.around model line).below id content) inner).map some := by
        intro inner member
        have lists : model.Lists id inner.id :=
          ⟨content, found, by rw [listed]; exact List.mem_map_of_mem member⟩
        obtain ⟨node, innerFound, link⟩ := wellFormed.linked id inner.id lists
        rw [← around_cons found]
        exact ih inner member (.up innerFound link above)
      have here := reportedAt_eq wellFormed root above found
      rw [Tree.preorder_node, List.flatMap_cons, show reportedAt root model id = _ from here,
        Tree.nodes, List.flatMap_assoc, List.flatMap_congr each, appends, List.map_append,
        List.map_flatMap]
      split <;> rfl

theorem appends_sublist (fits : tree.Fits model) (scope : Scope) :
    (appends model scope tree).Sublist tree.preorder := by
  induction fits generalizing scope with
  | @node id content branches found listed fit ih =>
      have here : (if scope.picks model content then [id] else []).Sublist [id] := by
        split <;> simp
      rw [appends, Tree.preorder_node, ← List.singleton_append]
      exact here.append (List.Sublist.flatMap_right branches fun inner member => ih inner member _)

/-- The rule asks for nodes only. -/
theorem emissions_symbol (root : String) (id : SymbolId) :
    emissions [rule] root model (.symbol id) = [] := by
  cases known : model.symbols[id]? <;> simp [emissions, asked, Sight.interest?, known, rule]

/-- In a run over an accepted model, among any other rules, the rule reports at the nodes that one
walk down the tree finds, in the order of the walk and at each of them once. -/
theorem run_reports_appends (accepted : model.check = .ok ()) (root : String)
    {before after : List Rule}
    (patient : ∀ other ∈ before ++ after, Patient root model other)
    (apart : ∀ other ∈ before ++ after, other.descriptor.id ≠ descriptor.id) :
    ∃ tree : Tree, model.IsTree tree ∧ (appends model {} tree).Nodup ∧
      ((Dispatch.run (before ++ rule :: after) root model false).diagnostics.filter
        (·.ruleId = descriptor.id)).map (·.anchor) = (appends model {} tree).map some := by
  have wellFormed := Model.wellFormed_of_check accepted
  obtain ⟨tree, isTree⟩ := wellFormed.isTree
  have allPatient : ∀ other ∈ before ++ rule :: after, Patient root model other := by
    intro other member
    rw [List.mem_append, List.mem_cons] at member
    rcases member with inBefore | rfl | inAfter
    · exact patient other (List.mem_append_left _ inBefore)
    · exact Builtin.textBuilder.patient root
    · exact patient other (List.mem_append_right _ inAfter)
  obtain ⟨node, found, orphan⟩ := wellFormed.rooted
  have top : model.Line tree.id [] := isTree.2.1 ▸ .root found orphan
  have ofRule (sight : Sight) :
      (emissions (before ++ rule :: after) root model sight).filter (·.ruleId = descriptor.id) =
        (emissions [rule] root model sight).filter (·.ruleId = descriptor.id) :=
    Dispatch.filter_emissions (show rule.descriptor.id ≠ "CIG9999" by decide) apart
  refine ⟨tree, isTree, (appends_sublist isTree.1 {}).nodup isTree.2.2.1, ?_⟩
  rw [Dispatch.run_eq_emissions wellFormed isTree allPatient, List.filter_flatMap,
    List.map_flatMap, Sight.all, List.flatMap_append, List.flatMap_map, List.flatMap_map]
  have onSymbols : (List.range model.symbols.size).flatMap
      (fun _ => ([] : List (Option NodeId))) = [] := by simp
  simp only [ofRule, emissions_symbol, List.filter_nil, List.map_nil, onSymbols, List.append_nil]
  exact flatMap_reportedAt wellFormed root isTree.1 top

/-- One append in two loops, one in none, and one in a loop of an object that is obsolete. -/
def nestedLoops : Model where
  filePath := "NestedLoops.al"
  nodes := #[
    { kind := .compilationUnit, children := [1, 11] },
    { kind := .object .codeunit, parent := some 0, children := [2] },
    { kind := .procedure, parent := some 1, children := [3] },
    { kind := .block, parent := some 2, children := [4, 8] },
    { kind := .whileLoop, parent := some 3, children := [5] },
    { kind := .forLoop, parent := some 4, children := [6] },
    { kind := .compoundAssignment, parent := some 5, text := some " +=", children := [7] },
    { kind := .identifier, parent := some 6, symbol := some 0 },
    { kind := .compoundAssignment, parent := some 3, text := some "+=", children := [9, 10] },
    { kind := .identifier, parent := some 8, symbol := some 0 },
    { kind := .literal, parent := some 8 },
    { kind := .object .codeunit, parent := some 0, children := [12], declares := some 1 },
    { kind := .trigger, parent := some 11, children := [13] },
    { kind := .repeatLoop, parent := some 12, children := [14] },
    { kind := .compoundAssignment, parent := some 13, text := some "+=", children := [15] },
    { kind := .identifier, parent := some 14, symbol := some 0 }]
  symbols := #[
    { name := "Result", kind := .globalVariable, type := { kind := .bigText } },
    { name := "Old", kind := .object .codeunit, properties := [("ObsoleteState", "Pending")] }]

theorem run_reports_appends_nestedLoops :
    ∃ tree : Tree, nestedLoops.IsTree tree ∧ appends nestedLoops {} tree = [6] := by
  have accepted : nestedLoops.check = .ok () := by decide +kernel
  have patient : ∀ other ∈ [CalcFields.rule] ++ [VarParameter.rule],
      Patient "" nestedLoops other := by
    intro other member
    simp only [List.cons_append, List.nil_append, List.mem_cons, List.not_mem_nil, or_false]
      at member
    rcases member with rfl | rfl
    · exact Builtin.calcFields.patient ""
    · exact Builtin.varParameter.patient ""
  obtain ⟨tree, isTree, _, reported⟩ := run_reports_appends accepted "" patient (by decide)
  have computed : ((Dispatch.run ([CalcFields.rule] ++ rule :: [VarParameter.rule]) "" nestedLoops
      false).diagnostics.filter (·.ruleId = descriptor.id)).map (·.anchor) = [some 6] := by
    decide +kernel
  rw [computed] at reported
  exact ⟨tree, isTree, by simpa using reported.symm⟩

end Rules.TextBuilder

end ModelLint
