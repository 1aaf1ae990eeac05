import ModelLint.Model.Basic

namespace ModelLint.Model

/-! Questions about a model.

A question about an id that has nothing behind it has no answer. Walks over the
tree are bounded by the number of nodes, which is enough in an accepted model:
there no walk meets a node twice. -/

def kind (model : Model) (id : NodeId) : Except MissingId NodeKind :=
  return (← model.node id).kind

def children (model : Model) (id : NodeId) : Except MissingId (List NodeId) :=
  return (← model.node id).children

/-- The child at a position, if there is one. -/
def child? (model : Model) (id : NodeId) (position : Nat) : Except MissingId (Option NodeId) :=
  return (← model.children id)[position]?

def parent (model : Model) (id : NodeId) : Except MissingId (Option NodeId) :=
  return (← model.node id).parent

/-- The first of some nodes with a property. -/
def findNode (model : Model) (accepts : Node → Bool) :
    List NodeId → Except MissingId (Option NodeId)
  | [] => .ok none
  | id :: rest => do
      if accepts (← model.node id) then return some id
      else model.findNode accepts rest

/-- The node and its ancestors, nearest first, up to a number of them. -/
def climb (model : Model) : (steps : Nat) → NodeId → Except MissingId (List NodeId)
  | 0, _ => .ok []
  | steps + 1, id => do
      match ← model.parent id with
      | none => return [id]
      | some parent => return id :: (← model.climb steps parent)

def ancestorsAndSelf (model : Model) (id : NodeId) : Except MissingId (List NodeId) :=
  match model.nodes[id]? with
  | some _ => model.climb model.nodes.size id
  | none => .error (.node id)

/-- The ancestors of a node, nearest first. -/
def ancestors (model : Model) (id : NodeId) : Except MissingId (List NodeId) := do
  match ← model.parent id with
  | none => return []
  | some parent => model.climb model.nodes.size parent

/-- The nearest of a node and its ancestors that has the given kind. -/
def firstAncestorOrSelf (model : Model) (id : NodeId) (kind : NodeKind) :
    Except MissingId (Option NodeId) := do
  model.findNode (·.kind = kind) (← model.ancestorsAndSelf id)

/-- The object declaration around a node, which may be the node itself. -/
def enclosingObject (model : Model) (id : NodeId) : Except MissingId (Option NodeId) := do
  model.findNode (·.kind.objectKind?.isSome) (← model.ancestorsAndSelf id)

/-- The pending nodes and those below them: each node, then what is below its
children in turn, then the rest. -/
def visit (model : Model) : (steps : Nat) → (pending : List NodeId) → Except MissingId (List NodeId)
  | _, [] => .ok []
  | 0, _ :: _ => .ok []
  | steps + 1, id :: rest => do
      let children ← model.children id
      return id :: (← model.visit steps (children ++ rest))

/-- The nodes below a node, each before those below it. -/
def descendants (model : Model) (id : NodeId) : Except MissingId (List NodeId) := do
  model.visit model.nodes.size (← model.children id)

/-- A node and the nodes below it, each before those below it. -/
def descendantsAndSelf (model : Model) (id : NodeId) : Except MissingId (List NodeId) :=
  match model.nodes[id]? with
  | some _ => model.visit model.nodes.size [id]
  | none => .error (.node id)

/-- Every node, each before those below it. -/
def walk (model : Model) : Except MissingId (List NodeId) :=
  model.descendantsAndSelf model.root

def resolvedId (model : Model) (id : NodeId) : Except MissingId (Option SymbolId) :=
  return (← model.node id).symbol

/-- The symbol that a node refers to, looked up. -/
def resolved (model : Model) (id : NodeId) : Except MissingId (Option Symbol) := do
  match ← model.resolvedId id with
  | some symbol => return some (← model.symbol symbol)
  | none => return none

/-- The symbols that `container` holds, with their ids. -/
def membersOf (model : Model) (container : SymbolId) : List (SymbolId × Symbol) :=
  model.symbols.toList.zipIdx.filterMap fun (symbol, id) =>
    if symbol.container = some container then some (id, symbol) else none

def findFirst (model : Model) (kind : NodeKind) : Except MissingId (Option NodeId) := do
  model.findNode (·.kind = kind) (← model.walk)

/-- The block that holds the statements of a procedure or trigger. -/
def body (model : Model) (id : NodeId) : Except MissingId (Option NodeId) := do
  model.findNode (·.kind = .block) (← model.children id)

def declaresObsolete (model : Model) (id : NodeId) : Except MissingId Bool := do
  match (← model.node id).declares with
  | some symbol => return (← model.symbol symbol).isObsolete
  | none => return false

end ModelLint.Model
