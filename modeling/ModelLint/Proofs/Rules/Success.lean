import ModelLint.Proofs.Rules.SetLoadFields.History
import ModelLint.Proofs.Rules.SourceExpression.Shown
import ModelLint.Rules.CalcFields
import ModelLint.Rules.DataClassification
import ModelLint.Rules.MissingCaption
import ModelLint.Rules.ProjectStructure
import ModelLint.Rules.TextBuilder
import ModelLint.Rules.VarParameter

namespace ModelLint

/-! No rule looks up an id of an accepted model in vain.

Each check follows ids from the node or symbol that it is shown: to children, parents,
declarations, containers and symbols. That the model is well formed is enough for every
one of these steps. -/

open Fallible

namespace Model

variable {model : Model} {id : NodeId}

theorem node_succeeds (inside : id < model.nodes.size) : Succeeds (model.node id) := by
  obtain ⟨node, found⟩ := found_of_lt_size inside
  exact ⟨node, node_eq_ok found⟩

theorem symbol_succeeds {id : SymbolId} (inside : id < model.symbols.size) :
    Succeeds (model.symbol id) := by
  obtain ⟨symbol, found⟩ := symbol_of_lt_size inside
  exact ⟨symbol, symbol_eq_ok found⟩

theorem findingAt_succeeds (inside : id < model.nodes.size) (args : List String) :
    Succeeds (model.findingAt id args) :=
  (node_succeeds inside).andThen fun _ _ => succeeds_ok _

theorem findingOn_succeeds (wellFormed : model.WellFormed) {id : SymbolId}
    (inside : id < model.symbols.size) (args : List String) :
    Succeeds (model.findingOn id args) := by
  obtain ⟨symbol, found⟩ := symbol_of_lt_size inside
  unfold findingOn
  refine .following (symbol_eq_ok found) ?_
  split
  · rename_i node declared
    exact findingAt_succeeds (wellFormed.declarations id symbol found node declared) args
  · exact succeeds_ok _

theorem children_inside (wellFormed : model.WellFormed) {node : Node}
    (found : model.nodes[id]? = some node) : ∀ child ∈ node.children, child < model.nodes.size :=
  fun child member => closed_of_linked wellFormed.linked id child ⟨node, found, member⟩

/-- Of the nodes below one, each is there. -/
theorem descendants_inside (wellFormed : model.WellFormed) (inside : id < model.nodes.size) :
    ∃ below, model.descendants id = .ok below ∧ ∀ inner ∈ below, inner < model.nodes.size := by
  obtain ⟨tree, fits, rfl⟩ := wellFormed.treeAt inside
  refine ⟨Tree.nodes tree.branches, wellFormed.descendants_eq_ok fits, fun inner member => ?_⟩
  exact lt_size_of_reaches wellFormed inside
    (fits.mem_nodes_branches_iff.mp member).to_reflTransGen

theorem findNode_finds {accepts : Node → Bool} {ids : List NodeId}
    (inside : ∀ id ∈ ids, id < model.nodes.size) :
    Finds (model.findNode accepts ids) fun id => ids.find? (model.Has accepts) = some id :=
  ⟨_, findNode_eq_ok inside, fun _ => .rfl⟩

end Model

namespace Rules

variable {model : Model} {id : NodeId}

theorem CalcFields.check_succeeds (wellFormed : model.WellFormed) (inside : id < model.nodes.size) :
    Succeeds (check model id) := by
  unfold check
  refine (Model.builtinCall_finds wellFormed inside).succeeds_andThen (succeeds_ok []) ?_
  intro pair _
  obtain ⟨call, method⟩ := pair
  dsimp only
  split
  · exact succeeds_ok []
  · refine (Model.inObsoleteObject_decides wellFormed inside).succeeds.andThen fun obsolete _ => ?_
    split
    · exact succeeds_ok []
    · exact (Model.findingAt_succeeds inside []).andThen fun _ _ => succeeds_ok _

theorem MissingCaption.isInTable_succeeds (wellFormed : model.WellFormed) {id : SymbolId}
    {symbol : Symbol} (found : model.symbols[id]? = some symbol) :
    Succeeds (isInTable model symbol) := by
  unfold isInTable
  cases held : symbol.container with
  | none => exact succeeds_ok false
  | some container =>
      have inside := wellFormed.containers id symbol found container held
      exact (Model.symbol_succeeds inside).andThen fun _ _ => succeeds_ok _

theorem MissingCaption.check_succeeds (wellFormed : model.WellFormed) {id : SymbolId}
    (inside : id < model.symbols.size) : Succeeds (check model id) := by
  obtain ⟨field, found⟩ := Model.symbol_of_lt_size inside
  unfold check
  refine .following (Model.symbol_eq_ok found) ?_
  refine (isInTable_succeeds wellFormed found).andThen fun isIn _ => ?_
  split
  · exact succeeds_ok []
  · exact (Model.findingOn_succeeds wellFormed inside _).andThen fun _ _ => succeeds_ok _

theorem DataClassification.propertyNode_finds (wellFormed : model.WellFormed) {id : SymbolId}
    {symbol : Symbol} (found : model.symbols[id]? = some symbol) :
    ∃ fits, Finds (propertyNode model symbol) fits ∧
      ∀ node, fits node → node < model.nodes.size := by
  unfold propertyNode
  cases declared : symbol.declaration with
  | none => exact ⟨fun _ => False, finds_none (by simp), by simp⟩
  | some declaration =>
      obtain ⟨node, nodeFound⟩ :=
        Model.found_of_lt_size (wellFormed.declarations id symbol found declaration declared)
      have inside := Model.children_inside wellFormed nodeFound
      simp only [Model.children_eq_ok nodeFound, bind, Except.bind]
      exact ⟨_, Model.findNode_finds inside, fun property first =>
        inside property (List.mem_of_find?_eq_some first)⟩

theorem DataClassification.check_succeeds (wellFormed : model.WellFormed)
    (settings : SettingsSource) {path : String} {cancelled : Bool} {id : SymbolId}
    (inside : id < model.symbols.size) :
    Succeeds (check settings ⟨model, path, cancelled⟩ id) := by
  obtain ⟨symbol, found⟩ := Model.symbol_of_lt_size inside
  unfold check
  refine .following (Model.symbol_eq_ok found) ?_
  split
  · exact succeeds_ok []
  · split
    · exact succeeds_ok []
    · obtain ⟨fits, finds, fitsInside⟩ := propertyNode_finds wellFormed found
      refine finds.succeeds_andThen ?_ fun node fitting => ?_
      · exact (Model.findingOn_succeeds wellFormed inside _).andThen fun _ _ => succeeds_ok _
      · exact (Model.findingAt_succeeds (fitsInside node fitting) _).andThen fun _ _ =>
          succeeds_ok _

theorem ProjectStructure.hasSubscriber_succeeds (wellFormed : model.WellFormed)
    (inside : id < model.nodes.size) : Succeeds (hasSubscriber model id) := by
  obtain ⟨below, found, belowInside⟩ := Model.descendants_inside wellFormed inside
  unfold hasSubscriber
  refine .following found ?_
  exact (Model.findNode_finds belowInside).succeeds.andThen fun _ _ => succeeds_ok _

theorem ProjectStructure.namespaceOf_succeeds (wellFormed : model.WellFormed) :
    Succeeds (namespaceOf model) := by
  obtain ⟨tree, isTree⟩ := wellFormed.isTree
  have inside : ∀ id ∈ tree.preorder, id < model.nodes.size := fun id member =>
    (isTree.2.2.2 id).mp member
  unfold namespaceOf Model.findFirst
  rw [wellFormed.walk_eq_ok isTree]
  refine (Model.findNode_finds inside).succeeds_andThen (succeeds_ok []) fun id first => ?_
  exact (Model.node_succeeds (inside id (List.mem_of_find?_eq_some first))).andThen fun _ _ =>
    succeeds_ok _

theorem SetLoadFields.check_succeeds (wellFormed : model.WellFormed) (threshold : Nat)
    (inside : id < model.nodes.size) : Succeeds (check threshold model id) := by
  unfold check
  refine (Model.inObsoleteObject_decides wellFormed inside).succeeds.andThen fun obsolete _ => ?_
  split
  · exact succeeds_ok []
  · refine (Model.body_finds wellFormed inside).succeeds_andThen (succeeds_ok []) ?_
    intro body hasBody
    obtain ⟨tree, fits, rfl⟩ := wellFormed.treeAt (hasBody.inside wellFormed)
    obtain ⟨found, exempt, fetched, _, reports⟩ :=
      fetches_reports wellFormed fits hasBody.isBlock threshold
    obtain ⟨findings, gathered, _⟩ := Model.gather_reports (fun id fetch isDue => by
      obtain ⟨_, _, _, happens, _⟩ := isDue
      exact finding_eq_ok happens) reports
    exact ⟨findings, by simp only [fetched, bind, Except.bind, gathered]⟩

theorem SourceExpression.check_succeeds (wellFormed : model.WellFormed)
    (inside : id < model.nodes.size) : Succeeds (check model id) := by
  unfold check
  refine (Model.node_succeeds inside).andThen fun trigger _ => ?_
  split
  · exact succeeds_ok []
  · refine (Model.enclosingObject_finds wellFormed inside).succeeds_andThen (succeeds_ok []) ?_
    intro object encloses
    obtain ⟨node, found, _⟩ := Model.has_iff.mp encloses.1.1
    have objectInside := Model.lt_size_of_found found
    refine .following (Model.kind_eq_ok found) ?_
    split
    · exact succeeds_ok []
    · refine (Model.declaresObsolete_decides wellFormed objectInside).succeeds.andThen ?_
      intro obsolete _
      split
      · exact succeeds_ok []
      · refine .following (Model.node_eq_ok found) ?_
        split
        · rename_i symbol _
          refine (Model.body_finds wellFormed inside).succeeds_andThen (succeeds_ok []) ?_
          intro body hasBody
          obtain ⟨assigned, assignedFound, exact⟩ := assignedGlobals_collects wellFormed
            (hasBody.inside wellFormed) (mem_globals model symbol)
          obtain ⟨below, belowFound, belowInside⟩ :=
            Model.descendants_inside wellFormed objectInside
          refine .following assignedFound ?_
          split
          · exact succeeds_ok []
          · refine .following belowFound ?_
            exact Model.gather_succeeds fun field member =>
              (fieldFinding_yields wellFormed exact (belowInside field member)).succeeds
        · exact succeeds_ok []

theorem TextBuilder.loopFirst_succeeds {ids : List NodeId}
    (inside : ∀ id ∈ ids, id < model.nodes.size) : Succeeds (loopFirst model ids) := by
  induction ids with
  | nil => exact succeeds_ok false
  | cons id rest ih =>
      obtain ⟨node, found⟩ := Model.found_of_lt_size (inside id (by simp))
      have later := ih fun other member => inside other (List.mem_cons_of_mem _ member)
      unfold loopFirst
      refine .following (Model.kind_eq_ok found) ?_
      split
      · exact succeeds_ok true
      · split
        · exact succeeds_ok false
        · exact later

theorem TextBuilder.extendedText_succeeds (wellFormed : model.WellFormed) {node : Node}
    (found : model.nodes[id]? = some node) : Succeeds (extendedText model node) := by
  unfold extendedText
  split
  · exact succeeds_ok none
  · split
    · rename_i target first
      have inside := Model.children_inside wellFormed found target (List.mem_of_mem_head? first)
      refine (Model.identifierSymbol_finds inside).succeeds_andThen (succeeds_ok none) ?_
      intro symbol names
      obtain ⟨targetNode, targetFound, _, resolved⟩ := names
      have known := wellFormed.nodeSymbols target targetNode targetFound symbol (.inl resolved)
      exact (Model.symbol_succeeds known).andThen fun _ _ => succeeds_ok _
    · exact succeeds_ok none

theorem TextBuilder.check_succeeds (wellFormed : model.WellFormed)
    (inside : id < model.nodes.size) : Succeeds (check model id) := by
  obtain ⟨node, found⟩ := Model.found_of_lt_size inside
  obtain ⟨line, above⟩ := wellFormed.line inside
  have lineInside : ∀ outer ∈ line, outer < model.nodes.size := fun outer member =>
    above.inside_self wellFormed outer (List.mem_cons_of_mem _ member)
  unfold check
  refine .following (Model.node_eq_ok found) ?_
  refine (extendedText_succeeds wellFormed found).andThen fun extended _ => ?_
  split
  · refine .following (above.ancestors_eq_ok wellFormed) ?_
    refine (loopFirst_succeeds lineInside).andThen fun inLoop _ => ?_
    split
    · exact succeeds_ok []
    · refine (Model.inObsoleteObject_decides wellFormed inside).succeeds.andThen ?_
      intro obsolete _
      split
      · exact succeeds_ok []
      · exact (Model.findingAt_succeeds inside _).andThen fun _ _ => succeeds_ok _
  · exact succeeds_ok []

theorem VarParameter.receiverSymbol_succeeds (wellFormed : model.WellFormed)
    (inside : id < model.nodes.size) : Succeeds (receiverSymbol model id) := by
  obtain ⟨node, found⟩ := Model.found_of_lt_size inside
  unfold receiverSymbol
  refine .following (Model.node_eq_ok found) ?_
  split
  · rename_i receiver others _ parts
    have receiverInside := Model.children_inside wellFormed found receiver (by simp [parts])
    exact (Model.identifierSymbol_finds receiverInside).succeeds
  · exact succeeds_ok none

theorem VarParameter.writtenSymbol_succeeds (wellFormed : model.WellFormed)
    (inside : id < model.nodes.size) : Succeeds (writtenSymbol model id) := by
  obtain ⟨node, found⟩ := Model.found_of_lt_size inside
  unfold writtenSymbol
  refine .following (Model.kind_eq_ok found) ?_
  split
  · exact (Model.identifierSymbol_finds inside).succeeds
  · exact receiverSymbol_succeeds wellFormed inside

theorem VarParameter.modifiedAt_succeeds (wellFormed : model.WellFormed)
    (inside : id < model.nodes.size) : Succeeds (modifiedAt model id) := by
  obtain ⟨node, found⟩ := Model.found_of_lt_size inside
  have childInside := Model.children_inside wellFormed found
  unfold modifiedAt
  refine .following (Model.node_eq_ok found) ?_
  split
  · rename_i target _ _ parts
    have targetInside := childInside target (by simp [parts])
    exact (writtenSymbol_succeeds wellFormed targetInside).andThen fun _ _ => succeeds_ok _
  · rename_i target _ _ parts
    have targetInside := childInside target (by simp [parts])
    exact (writtenSymbol_succeeds wellFormed targetInside).andThen fun _ _ => succeeds_ok _
  · rename_i callee _ _ parts
    have calleeInside := childInside callee (by simp [parts])
    exact (receiverSymbol_succeeds wellFormed calleeInside).andThen fun _ _ => succeeds_ok _
  · exact succeeds_ok []

/-- A parameter is at the node where it is found. -/
theorem VarParameter.parameterAt_inside (wellFormed : model.WellFormed)
    (inside : id < model.nodes.size) :
    ∃ parameters, parameterAt model id = .ok parameters ∧
      ∀ parameter ∈ parameters, parameter.node < model.nodes.size := by
  obtain ⟨node, found⟩ := Model.found_of_lt_size inside
  simp only [parameterAt, Model.node_eq_ok found, bind, Except.bind]
  split
  · rename_i symbol _ declared
    obtain ⟨parameter, known⟩ := Model.symbol_of_lt_size
      (wellFormed.nodeSymbols id node found symbol (.inr declared))
    rw [Model.symbol_eq_ok known]
    refine ⟨_, rfl, fun parameter member => ?_⟩
    split at member
    · rw [List.mem_singleton.mp member]
      exact inside
    · simp at member
  · exact ⟨[], rfl, by simp⟩

theorem VarParameter.check_succeeds (wellFormed : model.WellFormed)
    (inside : id < model.nodes.size) : Succeeds (check model id) := by
  obtain ⟨node, found⟩ := Model.found_of_lt_size inside
  have childInside := Model.children_inside wellFormed found
  obtain ⟨parameters, parametersFound, parametersInside⟩ := Model.gather_forall fun child member =>
    parameterAt_inside wellFormed (childInside child member)
  obtain ⟨below, belowFound, belowInside⟩ := Model.descendants_inside wellFormed inside
  unfold check
  refine .following (Model.node_eq_ok found) ?_
  refine .following parametersFound ?_
  refine .following belowFound ?_
  refine (Model.gather_succeeds fun inner member =>
    modifiedAt_succeeds wellFormed (belowInside inner member)).andThen fun modified _ => ?_
  refine Model.gather_succeeds fun parameter selected => ?_
  have parameterInside := parametersInside parameter (List.mem_of_mem_filter selected)
  exact (Model.findingAt_succeeds parameterInside _).andThen fun _ _ => succeeds_ok _

end Rules

end ModelLint
