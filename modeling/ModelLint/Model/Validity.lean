import ModelLint.Model.Basic

namespace ModelLint

/-! Which models are accepted.

An accepted model is a tree: it has a root without a parent, every child link has
its parent link, and every node is reached from the root once. Every reference of
an accepted model has something behind it. -/

/-- The first thing wrong with a model. -/
inductive Defect where
  /-- The root is missing or has a parent. -/
  | missingRoot
  | danglingNode (node referencedBy : NodeId)
  | parentMismatch (node expected : NodeId) (found : Option NodeId)
  | unreachable (node : NodeId)
  | sharedNode (node : NodeId)
  | danglingSymbol (symbol : SymbolId)
deriving DecidableEq, Repr, Inhabited

def Defect.message : Defect → String
  | missingRoot => "model has no root node"
  | danglingNode node referencedBy =>
      "node " ++ toString referencedBy ++ " references unknown node " ++ toString node
  | parentMismatch node expected found =>
      let parent := match found with
        | some id => "Some(" ++ toString id ++ ")"
        | none => "None"
      "node " ++ toString node ++ " is listed under " ++ toString expected ++
        " but its parent is " ++ parent
  | unreachable node => "node " ++ toString node ++ " is not reachable from the root"
  | sharedNode node => "node " ++ toString node ++ " appears more than once in the tree"
  | danglingSymbol symbol => "unknown symbol " ++ toString symbol

namespace Model

def checkRoot (model : Model) : Except Defect Unit :=
  match model.nodes[model.root]? with
  | none => .error .missingRoot
  | some root => if root.parent.isSome then .error .missingRoot else .ok ()

def checkSymbolRef (model : Model) : Option SymbolId → Except Defect Unit
  | some id => if id < model.symbols.size then .ok () else .error (.danglingSymbol id)
  | none => .ok ()

/-- A listed child has to exist and to name the node that lists it as its parent. -/
def checkChild (model : Model) (id child : NodeId) : Except Defect Unit :=
  match model.nodes[child]? with
  | none => .error (.danglingNode child id)
  | some node =>
      if node.parent = some id then .ok () else .error (.parentMismatch child id node.parent)

def checkNode (model : Model) (id : NodeId) (node : Node) : Except Defect Unit := do
  node.children.forM (model.checkChild id)
  model.checkSymbolRef node.symbol
  model.checkSymbolRef node.declares

def checkNodes (model : Model) : Except Defect Unit :=
  model.nodes.toList.zipIdx.forM fun (node, id) => model.checkNode id node

/-- Marks the nodes reached from the pending ones, last child first. Each step
marks another node, so a node that is still pending after as many steps as there
are nodes is one that was marked before. -/
def reach (model : Model) :
    (steps : Nat) → (seen : Array Bool) → (pending : List NodeId) → Except Defect (Array Bool)
  | _, seen, [] => .ok seen
  | 0, _, id :: _ => .error (.sharedNode id)
  | steps + 1, seen, id :: rest =>
      if seen.getD id false then .error (.sharedNode id)
      else
        let children := (model.nodes[id]?).elim [] Node.children
        model.reach steps (seen.setIfInBounds id true) (children.reverse ++ rest)

/-- Every node is reached from the root, and by one way only. -/
def checkShape (model : Model) : Except Defect Unit := do
  let seen ← model.reach model.nodes.size (Array.replicate model.nodes.size false) [model.root]
  match seen.findIdx? (!·) with
  | some id => .error (.unreachable id)
  | none => .ok ()

def checkSymbol (model : Model) (symbol : Symbol) : Except Defect Unit := do
  model.checkSymbolRef symbol.container
  match symbol.declaration with
  | some id =>
      if id < model.nodes.size then .ok () else .error (.danglingNode id model.root)
  | none => .ok ()

def checkSymbols (model : Model) : Except Defect Unit :=
  model.symbols.toList.forM model.checkSymbol

/-- Accepts a model or names its first defect: the root comes first, then the
references of the nodes in order, then the shape of the tree, then the symbols. -/
def check (model : Model) : Except Defect Unit := do
  model.checkRoot
  model.checkNodes
  model.checkShape
  model.checkSymbols

end Model

end ModelLint
