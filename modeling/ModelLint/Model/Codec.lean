import ModelLint.Json.Reader
import ModelLint.Json.Record
import ModelLint.Json.Writer
import ModelLint.Model.Validity

namespace ModelLint

open ModelLint.Json (Value record? tagged? tag? presentField)

/-! Model files.

A model file is a JSON text. Fields that hold their default may be left out; the
ones that hold nothing are left out in writing. -/

namespace ObjectKind

def ofJson? (value : Value) : Option ObjectKind := do
  ofLabel? (← tag? value)

end ObjectKind

namespace NodeKind

def toJson : NodeKind → Value
  | object kind => .object [("Object", .string kind.label)]
  | kind => .string kind.label

def ofJson? (value : Value) : Option NodeKind := do
  match ← tagged? value with
  | ("Object", content) => return .object (← ObjectKind.ofJson? (← content))
  | _ =>
      let label ← tag? value
      plain.find? fun kind => kind.label == label

end NodeKind

namespace TypeKind

def ofJson? (value : Value) : Option TypeKind := do
  let label ← tag? value
  all.find? fun kind => kind.label == label

end TypeKind

namespace SymbolKind

def toJson : SymbolKind → Value
  | object kind => .object [("Object", .string kind.label)]
  | kind => .string kind.label

def ofJson? (value : Value) : Option SymbolKind := do
  match ← tagged? value with
  | ("Object", content) => return .object (← ObjectKind.ofJson? (← content))
  | _ =>
      let label ← tag? value
      plain.find? fun kind => kind.label == label

end SymbolKind

/-- Ids are written in 32 bits. -/
def idBits : Nat := 32

/-- Positions in a source file are written in 64 bits. -/
def spanBits : Nat := 64

namespace Span

def toJson (span : Span) : Value :=
  .object [("line", .ofNat span.line), ("column", .ofNat span.column),
    ("offset", .ofNat span.offset), ("length", .ofNat span.length)]

def ofJson? (value : Value) : Option Span := do
  let fields ← record? ["line", "column", "offset", "length"] value
  return {
    line := ← fields.required? "line" (Value.word? spanBits)
    column := ← fields.required? "column" (Value.word? spanBits)
    offset := ← fields.required? "offset" (Value.word? spanBits)
    length := ← fields.required? "length" (Value.word? spanBits) }

end Span

namespace Node

def fieldNames : List String :=
  ["kind", "span", "parent", "children", "text", "symbol", "declares", "comments"]

def toJson (node : Node) : Value :=
  .object <|
    [("kind", node.kind.toJson), ("span", node.span.toJson),
      ("parent", (node.parent.map Value.ofNat).getD .null),
      ("children", .array (node.children.map Value.ofNat))] ++
    presentField "text" Value.string node.text ++
    presentField "symbol" Value.ofNat node.symbol ++
    presentField "declares" Value.ofNat node.declares ++
    if node.comments.isEmpty then []
    else [("comments", .array (node.comments.map Value.string))]

def ofJson? (value : Value) : Option Node := do
  let fields ← record? fieldNames value
  return {
    kind := ← fields.required? "kind" NodeKind.ofJson?
    span := ← fields.optional? "span" {} Span.ofJson?
    parent := ← fields.optional? "parent" none (Value.nullable? (Value.word? idBits))
    children := ← fields.optional? "children" [] (Value.listOf? (Value.word? idBits))
    text := ← fields.optional? "text" none (Value.nullable? Value.string?)
    symbol := ← fields.optional? "symbol" none (Value.nullable? (Value.word? idBits))
    declares := ← fields.optional? "declares" none (Value.nullable? (Value.word? idBits))
    comments := ← fields.optional? "comments" [] (Value.listOf? Value.string?) }

end Node

namespace TypeInfo

def toJson (type : TypeInfo) : Value :=
  .object <|
    [("kind", .string type.kind.label)] ++
    presentField "name" Value.string type.name ++
    [("temporary", .bool type.temporary)]

def ofJson? (value : Value) : Option TypeInfo := do
  let fields ← record? ["kind", "name", "temporary"] value
  return {
    kind := ← fields.required? "kind" TypeKind.ofJson?
    name := ← fields.optional? "name" none (Value.nullable? Value.string?)
    temporary := ← fields.optional? "temporary" false Value.bool? }

end TypeInfo

namespace Symbol

def fieldNames : List String :=
  ["name", "kind", "ty", "container", "by_reference", "builtin", "declaration", "properties"]

def toJson (symbol : Symbol) : Value :=
  .object <|
    [("name", .string symbol.name), ("kind", symbol.kind.toJson), ("ty", symbol.type.toJson)] ++
    presentField "container" Value.ofNat symbol.container ++
    [("by_reference", .bool symbol.byReference), ("builtin", .bool symbol.builtin)] ++
    presentField "declaration" Value.ofNat symbol.declaration ++
    if symbol.properties.isEmpty then []
    else [("properties", .object (symbol.properties.map fun (key, value) => (key, .string value)))]

/-- Reads the properties of a symbol. Of a name given twice the last value counts. -/
def properties? (value : Value) : Option (List (String × String)) := do
  let fields ← value.object?
  let texts ← fields.mapM fun (key, content) => content.string?.map (key, ·)
  return texts.foldl (fun properties (key, text) => putProperty key text properties) []

def ofJson? (value : Value) : Option Symbol := do
  let fields ← record? fieldNames value
  return {
    name := ← fields.required? "name" Value.string?
    kind := ← fields.required? "kind" SymbolKind.ofJson?
    type := ← fields.optional? "ty" { kind := .other } TypeInfo.ofJson?
    container := ← fields.optional? "container" none (Value.nullable? (Value.word? idBits))
    byReference := ← fields.optional? "by_reference" false Value.bool?
    builtin := ← fields.optional? "builtin" false Value.bool?
    declaration := ← fields.optional? "declaration" none (Value.nullable? (Value.word? idBits))
    properties := ← fields.optional? "properties" [] properties? }

end Symbol

/-- Why a model file is refused. -/
inductive LoadError where
  /-- The text is no JSON, or not that of a model. -/
  | malformed
  | defective (defect : Defect)
deriving DecidableEq, Repr, Inhabited

namespace Model

def toJson (model : Model) : Value :=
  .object [("file_path", .string model.filePath), ("root", .ofNat model.root),
    ("nodes", .array (model.nodes.toList.map Node.toJson)),
    ("symbols", .array (model.symbols.toList.map Symbol.toJson))]

def ofJson? (value : Value) : Option Model := do
  let fields ← record? ["file_path", "root", "nodes", "symbols"] value
  return {
    filePath := ← fields.required? "file_path" Value.string?
    root := ← fields.optional? "root" 0 (Value.word? idBits)
    nodes := (← fields.required? "nodes" (Value.listOf? Node.ofJson?)).toArray
    symbols := (← fields.optional? "symbols" [] (Value.listOf? Symbol.ofJson?)).toArray }

/-- The text of a model file. -/
def write (model : Model) : String :=
  Json.write .spread model.toJson

/-- Reads a model file and accepts only a model without defects. -/
def read (text : String) : Except LoadError Model :=
  match Json.parse? text >>= ofJson? with
  | none => .error .malformed
  | some model =>
      match model.check with
      | .ok () => .ok model
      | .error defect => .error (.defective defect)

end Model

end ModelLint
