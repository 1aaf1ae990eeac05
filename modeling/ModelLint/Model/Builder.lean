import ModelLint.Model.Validity

namespace ModelLint.Model

/-! Building a model node by node.

Node zero is the root. A node without a span of its own is placed on a line that
is one more than its id, so that findings on built models are distinct and in
order. -/

structure Builder where
  filePath : String
  nodes : Array Node
  symbols : Array Symbol
deriving Repr, Inhabited

namespace Builder

/-- A model with nothing but its root. -/
def new (filePath : String) : Builder where
  filePath := filePath
  nodes := #[{ kind := .compilationUnit, span := { line := 1, column := 1 } }]
  symbols := #[]

def updateNode (builder : Builder) (id : NodeId) (change : Node → Node) :
    Except MissingId Builder :=
  if id < builder.nodes.size then
    .ok { builder with nodes := builder.nodes.modify id change }
  else .error (.node id)

def updateSymbol (builder : Builder) (id : SymbolId) (change : Symbol → Symbol) :
    Except MissingId Builder :=
  if id < builder.symbols.size then
    .ok { builder with symbols := builder.symbols.modify id change }
  else .error (.symbol id)

/-- Adds a node as the last child of `parent`. -/
def add (builder : Builder) (parent : NodeId) (kind : NodeKind) :
    Except MissingId (NodeId × Builder) := do
  let id := builder.nodes.size
  let node := { kind := kind, parent := some parent, span := { line := id + 1, column := 1 } }
  let grown := { builder with nodes := builder.nodes.push node }
  return (id, ← grown.updateNode parent fun node => { node with children := node.children ++ [id] })

/-- Adds a node with a text, whose span is as long as the text in bytes. -/
def addText (builder : Builder) (parent : NodeId) (kind : NodeKind) (text : String) :
    Except MissingId (NodeId × Builder) := do
  let (id, grown) ← builder.add parent kind
  return (id, ← grown.updateNode id fun node =>
    { node with text := some text, span := { node.span with length := text.utf8ByteSize } })

/-- Records that a node refers to a symbol. -/
def resolve (builder : Builder) (id : NodeId) (symbol : SymbolId) : Except MissingId Builder :=
  builder.updateNode id fun node => { node with symbol := some symbol }

/-- Adds an identifier that refers to a symbol and has its name as text. -/
def identifier (builder : Builder) (parent : NodeId) (symbol : SymbolId) :
    Except MissingId (NodeId × Builder) := do
  match builder.symbols[symbol]? with
  | none => .error (.symbol symbol)
  | some target =>
      let (id, grown) ← builder.addText parent .identifier target.name
      return (id, ← grown.resolve id symbol)

/-- Adds a symbol to the table. -/
def addSymbol (builder : Builder) (symbol : Symbol) : SymbolId × Builder :=
  (builder.symbols.size, { builder with symbols := builder.symbols.push symbol })

/-- Records that a node declares a symbol, on both of them. -/
def declare (builder : Builder) (id : NodeId) (symbol : SymbolId) : Except MissingId Builder := do
  let declared ← builder.updateNode id fun node => { node with declares := some symbol }
  declared.updateSymbol symbol fun target => { target with declaration := some id }

/-- Puts another comment in front of a node. -/
def comment (builder : Builder) (id : NodeId) (text : String) : Except MissingId Builder :=
  builder.updateNode id fun node => { node with comments := node.comments ++ [text] }

def setSpan (builder : Builder) (id : NodeId) (span : Span) : Except MissingId Builder :=
  builder.updateNode id fun node => { node with span := span }

/-- The model built so far, whether it is accepted or not. -/
def model (builder : Builder) : Model where
  filePath := builder.filePath
  nodes := builder.nodes
  symbols := builder.symbols

/-- The finished model, if it is accepted. -/
def build (builder : Builder) : Except Defect Model := do
  builder.model.check
  return builder.model

end Builder

end ModelLint.Model
