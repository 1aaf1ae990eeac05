import ModelLint.Proofs.Model.WellFormed
import ModelLint.Rule
import ModelLint.Rules.Calls

namespace ModelLint

/-! Models without their comments.

Only allowances are read off comments. Every other question about a model has the answer that
it has about the bare model, so two models with one and the same bare model agree on it. -/

/-- A node without its comments. -/
def Node.bare (node : Node) : Node :=
  { node with comments := [] }

@[simp] theorem Node.bare_kind (node : Node) : node.bare.kind = node.kind := rfl

@[simp] theorem Node.bare_span (node : Node) : node.bare.span = node.span := rfl

@[simp] theorem Node.bare_parent (node : Node) : node.bare.parent = node.parent := rfl

@[simp] theorem Node.bare_children (node : Node) : node.bare.children = node.children := rfl

@[simp] theorem Node.bare_symbol (node : Node) : node.bare.symbol = node.symbol := rfl

@[simp] theorem Node.bare_declares (node : Node) : node.bare.declares = node.declares := rfl

@[simp] theorem Node.bare_name (node : Node) : node.bare.name = node.name := rfl

@[simp] theorem Node.bare_isNamed (node : Node) (expected : String) :
    node.bare.isNamed expected = node.isNamed expected := rfl

namespace Model

variable (model : Model) (id : NodeId)

def bare : Model :=
  { model with nodes := model.nodes.map Node.bare }

/-- A model with other comments in front of a node. -/
def withComments (comments : List String) : Model :=
  { model with nodes := model.nodes.modify id fun node => { node with comments := comments } }

@[simp] theorem bare_filePath : model.bare.filePath = model.filePath := rfl

@[simp] theorem bare_root : model.bare.root = model.root := rfl

@[simp] theorem bare_symbols : model.bare.symbols = model.symbols := rfl

@[simp] theorem bare_size : model.bare.nodes.size = model.nodes.size :=
  Array.size_map

@[simp] theorem bare_getElem? : model.bare.nodes[id]? = model.nodes[id]?.map Node.bare :=
  Array.getElem?_map

theorem withComments_getElem? (comments : List String) (other : NodeId) :
    (model.withComments id comments).nodes[other]? =
      if id = other then model.nodes[other]?.map fun node => { node with comments := comments }
      else model.nodes[other]? :=
  Array.getElem?_modify

theorem bare_withComments (comments : List String) :
    (model.withComments id comments).bare = model.bare := by
  have sameNodes :
      (model.nodes.modify id fun node => { node with comments := comments }).map Node.bare =
        model.nodes.map Node.bare := by
    apply Array.ext_getElem?
    intro other
    simp only [Array.getElem?_map, Array.getElem?_modify, apply_ite (Option.map Node.bare),
      Option.map_map, Function.comp_def]
    split <;> rfl
  rw [bare, withComments, sameNodes, bare]

@[simp] theorem lists_bare : model.bare.Lists = model.Lists := by
  funext parent child
  simp [Lists, Option.map_eq_some_iff]

@[simp] theorem reaches_bare : model.bare.Reaches = model.Reaches := by
  simp only [Reaches, lists_bare]

theorem wellFormed_bare_iff : model.bare.WellFormed ↔ model.WellFormed := by
  constructor
  · rintro ⟨rooted, linked, distinct, reached, nodeSymbols, containers, declarations⟩
    exact ⟨by simpa using rooted, by simpa using linked, by simpa using distinct,
      by simpa using reached, by simpa using nodeSymbols, by simpa using containers,
      by simpa using declarations⟩
  · rintro ⟨rooted, linked, distinct, reached, nodeSymbols, containers, declarations⟩
    exact ⟨by simpa using rooted, by simpa using linked, by simpa using distinct,
      by simpa using reached, by simpa using nodeSymbols, by simpa using containers,
      by simpa using declarations⟩

theorem reaches_withComments (comments : List String) :
    (model.withComments id comments).Reaches = model.Reaches := by
  rw [← reaches_bare, bare_withComments, reaches_bare]

theorem wellFormed_withComments_iff (comments : List String) :
    (model.withComments id comments).WellFormed ↔ model.WellFormed := by
  rw [← wellFormed_bare_iff, bare_withComments, wellFormed_bare_iff]

@[simp] theorem symbol_bare (id : SymbolId) : model.bare.symbol id = model.symbol id := rfl

@[simp] theorem node_bare_bind {α : Type} (next : Node → Except MissingId α) :
    (model.bare.node id >>= next) = (model.node id >>= fun node => next node.bare) := by
  unfold node
  rw [bare_getElem?]
  cases model.nodes[id]? <;> rfl

@[simp] theorem node_bare_map {α : Type} (read : Node → α) :
    read <$> model.bare.node id = (fun node => read node.bare) <$> model.node id :=
  node_bare_bind model id fun node => pure (read node)

@[simp] theorem kind_bare : model.bare.kind id = model.kind id := by
  simp [kind]

@[simp] theorem children_bare : model.bare.children id = model.children id := by
  simp [children]

@[simp] theorem child?_bare (position : Nat) :
    model.bare.child? id position = model.child? id position := by
  simp [child?]

@[simp] theorem parent_bare : model.bare.parent id = model.parent id := by
  simp [parent]

@[simp] theorem findNode_bare (accepts : Node → Bool) (ids : List NodeId) :
    model.bare.findNode accepts ids = model.findNode (fun node => accepts node.bare) ids := by
  induction ids with
  | nil => rfl
  | cons id rest ih => simp [findNode, ih]

@[simp] theorem climb_bare (steps : Nat) : model.bare.climb steps id = model.climb steps id := by
  induction steps generalizing id with
  | zero => rfl
  | succ steps ih => simp [climb, ih]

@[simp] theorem ancestorsAndSelf_bare :
    model.bare.ancestorsAndSelf id = model.ancestorsAndSelf id := by
  cases found : model.nodes[id]? <;> simp [ancestorsAndSelf, found]

@[simp] theorem ancestors_bare : model.bare.ancestors id = model.ancestors id := by
  simp [ancestors]

@[simp] theorem enclosingObject_bare :
    model.bare.enclosingObject id = model.enclosingObject id := by
  simp [enclosingObject]

@[simp] theorem visit_bare (steps : Nat) (pending : List NodeId) :
    model.bare.visit steps pending = model.visit steps pending := by
  induction steps generalizing pending with
  | zero => cases pending <;> rfl
  | succ steps ih => cases pending <;> simp [visit, ih]

@[simp] theorem descendants_bare : model.bare.descendants id = model.descendants id := by
  simp [descendants]

@[simp] theorem descendantsAndSelf_bare :
    model.bare.descendantsAndSelf id = model.descendantsAndSelf id := by
  cases found : model.nodes[id]? <;> simp [descendantsAndSelf, found]

@[simp] theorem walk_bare : model.bare.walk = model.walk := by
  simp [walk]

@[simp] theorem resolvedId_bare : model.bare.resolvedId id = model.resolvedId id := by
  simp [resolvedId]

@[simp] theorem membersOf_bare (container : SymbolId) :
    model.bare.membersOf container = model.membersOf container := rfl

@[simp] theorem findFirst_bare (kind : NodeKind) :
    model.bare.findFirst kind = model.findFirst kind := by
  simp only [findFirst, walk_bare, findNode_bare]
  rfl

@[simp] theorem body_bare : model.bare.body id = model.body id := by
  simp only [body, children_bare, findNode_bare]
  rfl

@[simp] theorem declaresObsolete_bare :
    model.bare.declaresObsolete id = model.declaresObsolete id := by
  simp [declaresObsolete]

@[simp] theorem findingAt_bare (args : List String) :
    model.bare.findingAt id args = model.findingAt id args := by
  simp [findingAt]

@[simp] theorem findingOn_bare (id : SymbolId) (args : List String) :
    model.bare.findingOn id args = model.findingOn id args := by
  simp [findingOn]

@[simp] theorem calleeParts_bare : model.bare.calleeParts id = model.calleeParts id := by
  simp [calleeParts]

@[simp] theorem call_bare : model.bare.call id = model.call id := by
  simp [call]

@[simp] theorem builtinCall_bare : model.bare.builtinCall id = model.builtinCall id := by
  simp [builtinCall]

@[simp] theorem withTargetAmong_bare (ids : List NodeId) :
    model.bare.withTargetAmong ids = model.withTargetAmong ids := by
  induction ids with
  | nil => rfl
  | cons id rest ih =>
      simp only [withTargetAmong, node_bare_bind, ih]
      rfl

@[simp] theorem withTarget_bare (stop : NodeId) :
    model.bare.withTarget id stop = model.withTarget id stop := by
  simp [withTarget]

@[simp] theorem identifierSymbol_bare :
    model.bare.identifierSymbol id = model.identifierSymbol id := by
  simp only [identifierSymbol, node_bare_bind]
  rfl

@[simp] theorem inObsoleteObject_bare :
    model.bare.inObsoleteObject id = model.inObsoleteObject id := by
  simp [inObsoleteObject]

end Model

end ModelLint
