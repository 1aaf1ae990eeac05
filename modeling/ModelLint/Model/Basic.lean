import ModelLint.Model.Kind
import ModelLint.Text.Ascii

namespace ModelLint

/-! The model of one source file.

A model is an arena of syntax nodes and a table of symbols. Nodes and symbols
refer to each other by index, so a reference can point outside the arena or the
table; looking one up says so. -/

/-- Index of a node in the arena. -/
abbrev NodeId := Nat

/-- Index of a symbol in the symbol table. -/
abbrev SymbolId := Nat

/-- A place in the source text. Lines and columns count from one, and line zero
stands for the file as a whole. -/
structure Span where
  line : Nat := 0
  column : Nat := 0
  /-- Offset in bytes. -/
  offset : Nat := 0
  /-- Length in bytes. -/
  length : Nat := 0
deriving DecidableEq, Repr, Inhabited

structure Node where
  kind : NodeKind
  span : Span := {}
  /-- Nothing for the root. -/
  parent : Option NodeId := none
  /-- In source order. -/
  children : List NodeId := []
  /-- Name, operator or literal, depending on the kind. -/
  text : Option String := none
  /-- Symbol that the node refers to. -/
  symbol : Option SymbolId := none
  /-- Symbol that the node declares. -/
  declares : Option SymbolId := none
  /-- Comments in front of the node, as written. -/
  comments : List String := []
deriving DecidableEq, Repr, Inhabited

/-- The text of a node, empty if it has none. -/
def Node.name (node : Node) : String :=
  node.text.getD ""

/-- Whether the text of a node is `expected`, in any letter case. -/
def Node.isNamed (node : Node) (expected : String) : Bool :=
  Text.sameIgnoringCase node.name expected

structure TypeInfo where
  kind : TypeKind
  /-- Name of the object, for a type made from one. -/
  name : Option String := none
  /-- Records that live in memory only. -/
  temporary : Bool := false
deriving DecidableEq, Repr, Inhabited

namespace TypeInfo

def record (name : String) : TypeInfo where
  kind := .record
  name := some name

def temporaryRecord (name : String) : TypeInfo where
  kind := .record
  name := some name
  temporary := true

end TypeInfo

structure Symbol where
  name : String
  kind : SymbolKind
  type : TypeInfo := { kind := .other }
  /-- Method or object around the symbol. -/
  container : Option SymbolId := none
  /-- Parameter passed by reference. -/
  byReference : Bool := false
  /-- Method provided by the platform. -/
  builtin : Bool := false
  /-- Node that declares the symbol, if it is in this model. -/
  declaration : Option NodeId := none
  /-- Declared properties, by increasing name. -/
  properties : List (String × String) := []
deriving DecidableEq, Repr, Inhabited

namespace Symbol

/-- A method provided by the platform. -/
def builtinMethod (name : String) : Symbol where
  name := name
  kind := .method
  builtin := true

/-- Puts a property in its place by name; an earlier value of it is lost. -/
def putProperty (name value : String) : List (String × String) → List (String × String)
  | [] => [(name, value)]
  | (other, old) :: rest =>
      if name < other then (name, value) :: (other, old) :: rest
      else if name = other then (name, value) :: rest
      else (other, old) :: putProperty name value rest

/-- The value of the first property with this name, in any letter case. -/
def property? (symbol : Symbol) (name : String) : Option String :=
  (symbol.properties.find? fun (key, _) => Text.sameIgnoringCase key name).map (·.2)

def isRecordVariable (symbol : Symbol) : Bool :=
  symbol.kind.isVariable && symbol.type.kind = .record

/-- Whether an object or field is on its way out. -/
def isObsolete (symbol : Symbol) : Bool :=
  (symbol.property? "ObsoleteState").any fun state =>
    Text.sameIgnoringCase state "Pending" || Text.sameIgnoringCase state "Removed"

end Symbol

/-- One source file as the compiler sees it. -/
structure Model where
  filePath : String
  root : NodeId := 0
  nodes : Array Node
  symbols : Array Symbol := #[]
deriving DecidableEq, Repr, Inhabited

/-- An index with nothing behind it. -/
inductive MissingId where
  | node (id : NodeId)
  | symbol (id : SymbolId)
deriving DecidableEq, Repr, Inhabited

def MissingId.message : MissingId → String
  | node id => "no node " ++ toString id
  | symbol id => "no symbol " ++ toString id

namespace Model

def node (model : Model) (id : NodeId) : Except MissingId Node :=
  match model.nodes[id]? with
  | some node => .ok node
  | none => .error (.node id)

def symbol (model : Model) (id : SymbolId) : Except MissingId Symbol :=
  match model.symbols[id]? with
  | some symbol => .ok symbol
  | none => .error (.symbol id)

end Model

end ModelLint
