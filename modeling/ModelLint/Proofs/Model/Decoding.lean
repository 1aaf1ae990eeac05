import Mathlib.Data.String.Basic
import ModelLint.Proofs.Json.Record
import ModelLint.Proofs.Model.WellFormed

namespace ModelLint

/-! What a model file is read as.

An object carries a record if it gives the fields of the record, in any order and among any others.
A field that holds its default need not be given. The numbers have to fit the width in which they
are read, and the properties of a symbol are brought into the order of their names. -/

open Json (Value Fields mapM_map record?_object)
open Json.Value (Plain IsObject IsArray OrNull IsNat IsText string?_string bool?_bool)

theorem ObjectKind.ofJson?_label (kind : ObjectKind) :
    ofJson? (.string kind.label) = some kind := by
  cases kind <;> rfl

theorem NodeKind.ofJson?_toJson (kind : NodeKind) : ofJson? kind.toJson = some kind := by
  cases kind with
  | object kind => simp [toJson, ofJson?, Json.tagged?, ObjectKind.ofJson?_label]
  | _ => rfl

theorem SymbolKind.ofJson?_toJson (kind : SymbolKind) : ofJson? kind.toJson = some kind := by
  cases kind with
  | object kind => simp [toJson, ofJson?, Json.tagged?, ObjectKind.ofJson?_label]
  | _ => rfl

theorem TypeKind.ofJson?_label (kind : TypeKind) : ofJson? (.string kind.label) = some kind := by
  cases kind <;> rfl

section

variable {fields : Fields} {name : String}

theorem required?_position {number : Nat} (given : fields.Gives name (IsNat number))
    (small : number < 2 ^ 64) : fields.required? name (Value.word? spanBits) = some number := by
  refine given.required?_eq fun json isNat => ?_
  obtain rfl : json = .ofNat number := isNat
  exact Value.word?_ofNat small

theorem word?_id {id : Nat} (small : id < 2 ^ 32) {json : Value} (isId : IsNat id json) :
    Value.word? idBits json = some id := by
  obtain rfl : json = .ofNat id := isId
  exact Value.word?_ofNat small

theorem optional?_id {id : Option Nat} (given : fields.MayGive name (id = none) (OrNull IsNat id))
    (small : ∀ number, id = some number → number < 2 ^ 32) :
    fields.optional? name none (Value.nullable? (Value.word? idBits)) = some id := by
  refine given.optional?_eq fun json isJson => isJson.nullable?_eq fun number isSome json isId => ?_
  refine ⟨?_, word?_id (small number isSome) isId⟩
  obtain rfl : json = .ofNat number := isId
  simp [Value.ofNat]

theorem optional?_text {text : Option String}
    (given : fields.MayGive name (text = none) (OrNull IsText text)) :
    fields.optional? name none (Value.nullable? Value.string?) = some text := by
  refine given.optional?_eq fun json isJson => isJson.nullable?_eq fun content _ json isText => ?_
  obtain rfl : json = .string content := isText
  exact ⟨by simp, rfl⟩

theorem optional?_bool {value : Bool}
    (given : fields.MayGive name (value = false) (· = .bool value)) :
    fields.optional? name false Value.bool? = some value :=
  given.optional?_eq fun _ isBool => isBool ▸ bool?_bool value

end

/-- The numbers of a span fit 64 bits. -/
structure Span.Storable (span : Span) : Prop where
  line : span.line < 2 ^ 64
  column : span.column < 2 ^ 64
  offset : span.offset < 2 ^ 64
  length : span.length < 2 ^ 64

structure Span.CarriedBy (span : Span) (fields : Fields) : Prop where
  line : fields.Gives "line" (IsNat span.line)
  column : fields.Gives "column" (IsNat span.column)
  offset : fields.Gives "offset" (IsNat span.offset)
  length : fields.Gives "length" (IsNat span.length)

theorem Span.ofJson?_of_carried {span : Span} (storable : span.Storable) {value : Value}
    (carried : IsObject span.CarriedBy value) : ofJson? value = some span := by
  obtain ⟨fields, rfl, carried⟩ := carried
  rw [ofJson?, record?_object (by simp [carried.line.once, carried.column.once,
    carried.offset.once, carried.length.once])]
  simp only [required?_position carried.line storable.line,
    required?_position carried.column storable.column,
    required?_position carried.offset storable.offset,
    required?_position carried.length storable.length, bind, Option.bind, pure]

/-- The ids at a node fit 32 bits. -/
structure Node.Storable (node : Node) : Prop where
  span : node.span.Storable
  parent : ∀ id, node.parent = some id → id < 2 ^ 32
  children : ∀ id ∈ node.children, id < 2 ^ 32
  symbol : ∀ id, node.symbol = some id → id < 2 ^ 32
  declares : ∀ id, node.declares = some id → id < 2 ^ 32

structure Node.CarriedBy (node : Node) (fields : Fields) : Prop where
  kind : fields.Gives "kind" (· = node.kind.toJson)
  span : fields.MayGive "span" (node.span = {}) (IsObject node.span.CarriedBy)
  parent : fields.MayGive "parent" (node.parent = none) (OrNull IsNat node.parent)
  children : fields.MayGive "children" (node.children = []) (IsArray IsNat node.children)
  text : fields.MayGive "text" (node.text = none) (OrNull IsText node.text)
  symbol : fields.MayGive "symbol" (node.symbol = none) (OrNull IsNat node.symbol)
  declares : fields.MayGive "declares" (node.declares = none) (OrNull IsNat node.declares)
  comments : fields.MayGive "comments" (node.comments = []) (IsArray IsText node.comments)

theorem Node.ofJson?_of_carried {node : Node} (storable : node.Storable) {value : Value}
    (carried : IsObject node.CarriedBy value) : ofJson? value = some node := by
  obtain ⟨fields, rfl, carried⟩ := carried
  have kind := carried.kind.required?_eq fun json isKind =>
    isKind ▸ NodeKind.ofJson?_toJson node.kind
  have span := carried.span.optional?_eq fun json => Span.ofJson?_of_carried storable.span
  have children := carried.children.optional?_eq fun json isArray =>
    isArray.listOf?_eq fun id member json => word?_id (storable.children id member)
  have comments := carried.comments.optional?_eq fun json isArray =>
    isArray.listOf?_eq fun text _ json isText => isText ▸ string?_string text
  rw [ofJson?, record?_object (by simp [fieldNames, carried.kind.once, carried.span.once,
    carried.parent.once, carried.children.once, carried.text.once, carried.symbol.once,
    carried.declares.once, carried.comments.once])]
  simp only [kind, span, optional?_id carried.parent storable.parent, children,
    optional?_text carried.text, optional?_id carried.symbol storable.symbol,
    optional?_id carried.declares storable.declares, comments, bind, Option.bind, pure]

structure TypeInfo.CarriedBy (type : TypeInfo) (fields : Fields) : Prop where
  kind : fields.Gives "kind" (IsText type.kind.label)
  name : fields.MayGive "name" (type.name = none) (OrNull IsText type.name)
  temporary : fields.MayGive "temporary" (type.temporary = false) (· = .bool type.temporary)

theorem TypeInfo.ofJson?_of_carried {type : TypeInfo} {value : Value}
    (carried : IsObject type.CarriedBy value) : ofJson? value = some type := by
  obtain ⟨fields, rfl, carried⟩ := carried
  have kind := carried.kind.required?_eq fun json isText =>
    isText ▸ TypeKind.ofJson?_label type.kind
  rw [ofJson?, record?_object (by simp [carried.kind.once, carried.name.once,
    carried.temporary.once])]
  simp only [kind, optional?_text carried.name, optional?_bool carried.temporary, bind, Option.bind,
    pure]

section

variable {name value : String} {properties : List (String × String)}

theorem Symbol.putProperty_perm (new : ∀ property ∈ properties, property.1 ≠ name) :
    (putProperty name value properties).Perm ((name, value) :: properties) := by
  induction properties with
  | nil => exact .refl _
  | cons property others ih =>
      obtain ⟨other, old⟩ := property
      obtain ⟨here, later⟩ := List.forall_mem_cons.mp new
      rw [putProperty]
      split
      · exact .refl _
      · rw [if_neg (Ne.symm here)]
        exact ((ih later).cons _).trans (.swap _ _ _)

theorem Symbol.putProperty_increasing
    (increasing : properties.Pairwise fun left right => left.1 < right.1)
    (new : ∀ property ∈ properties, property.1 ≠ name) :
    (putProperty name value properties).Pairwise fun left right => left.1 < right.1 := by
  induction properties with
  | nil => simp [putProperty]
  | cons property others ih =>
      obtain ⟨other, old⟩ := property
      obtain ⟨here, later⟩ := List.forall_mem_cons.mp new
      obtain ⟨below, rest⟩ := List.pairwise_cons.mp increasing
      rw [putProperty]
      split
      · rename_i before
        refine List.pairwise_cons.mpr ⟨List.forall_mem_cons.mpr ⟨before, ?_⟩, increasing⟩
        exact fun property member => lt_trans before (below property member)
      · rename_i notBefore
        rw [if_neg (Ne.symm here)]
        refine List.pairwise_cons.mpr ⟨fun property member => ?_, ih rest later⟩
        rcases List.mem_cons.mp ((putProperty_perm later).mem_iff.mp member) with rfl | old
        · exact lt_of_le_of_ne (not_lt.mp notBefore) here
        · exact below property old

/-- In whatever order properties are put in, they end up in the order of their names. -/
theorem Symbol.foldl_putProperty {done listed : List (String × String)}
    (ordered : done.Pairwise fun left right => left.1 < right.1)
    (increasing : properties.Pairwise fun left right => left.1 < right.1)
    (permuted : (done ++ listed).Perm properties) :
    listed.foldl (fun properties property => putProperty property.1 property.2 properties) done =
      properties := by
  induction listed generalizing done with
  | nil =>
      rw [List.append_nil] at permuted
      exact permuted.eq_of_pairwise (fun left right _ _ before behind =>
        absurd before (lt_asymm behind)) ordered increasing
  | cons property others ih =>
      obtain ⟨key, text⟩ := property
      have distinct : (done ++ (key, text) :: others).Pairwise fun left right =>
          left.1 ≠ right.1 :=
        (permuted.pairwise_iff Ne.symm).mpr (increasing.imp ne_of_lt)
      have new : ∀ property ∈ done, property.1 ≠ key := fun property member =>
        (List.pairwise_append.mp distinct).2.2 property member (key, text) (by simp)
      refine ih (putProperty_increasing ordered new) ?_
      have moved : (putProperty key text done ++ others).Perm (((key, text) :: done) ++ others) :=
        (putProperty_perm new).append_right others
      exact moved.trans (List.perm_middle.symm.trans permuted)

end

/-- The ids of a symbol fit 32 bits, and its properties are in the order of their names. -/
structure Symbol.Storable (symbol : Symbol) : Prop where
  container : ∀ id, symbol.container = some id → id < 2 ^ 32
  declaration : ∀ id, symbol.declaration = some id → id < 2 ^ 32
  properties : symbol.properties.Pairwise fun left right => left.1 < right.1

/-- An object of the given properties, in any order. -/
def Symbol.ListsProperties (properties : List (String × String)) (value : Value) : Prop :=
  ∃ listed : List (String × String), listed.Perm properties ∧
    value = .object (listed.map fun property => (property.1, .string property.2))

structure Symbol.CarriedBy (symbol : Symbol) (fields : Fields) : Prop where
  name : fields.Gives "name" (IsText symbol.name)
  kind : fields.Gives "kind" (· = symbol.kind.toJson)
  type : fields.MayGive "ty" (symbol.type = { kind := .other }) (IsObject symbol.type.CarriedBy)
  container : fields.MayGive "container" (symbol.container = none) (OrNull IsNat symbol.container)
  byReference : fields.MayGive "by_reference" (symbol.byReference = false)
    (· = .bool symbol.byReference)
  builtin : fields.MayGive "builtin" (symbol.builtin = false) (· = .bool symbol.builtin)
  declaration : fields.MayGive "declaration" (symbol.declaration = none)
    (OrNull IsNat symbol.declaration)
  properties : fields.MayGive "properties" (symbol.properties = [])
    (ListsProperties symbol.properties)

theorem Symbol.properties?_eq {properties : List (String × String)}
    (increasing : properties.Pairwise fun left right => left.1 < right.1) {value : Value}
    (lists : ListsProperties properties value) : properties? value = some properties := by
  obtain ⟨listed, permuted, rfl⟩ := lists
  have texts : (listed.map fun property => (property.1, Value.string property.2)).mapM
      (fun field => field.2.string?.map (field.1, ·)) = some listed :=
    mapM_map fun _ _ => rfl
  have ordered : listed.foldl (fun properties property =>
      putProperty property.1 property.2 properties) [] = properties :=
    foldl_putProperty .nil increasing permuted
  change (do
    let texts ← (listed.map fun property => (property.1, Value.string property.2)).mapM
      (fun field => field.2.string?.map (field.1, ·))
    return texts.foldl (fun properties property =>
      putProperty property.1 property.2 properties) []) = some properties
  simp only [texts, ordered, bind, Option.bind, pure]

theorem Symbol.ofJson?_of_carried {symbol : Symbol} (storable : symbol.Storable) {value : Value}
    (carried : IsObject symbol.CarriedBy value) : ofJson? value = some symbol := by
  obtain ⟨fields, rfl, carried⟩ := carried
  have name := carried.name.required?_eq fun json isText => isText ▸ string?_string symbol.name
  have kind := carried.kind.required?_eq fun json isKind =>
    isKind ▸ SymbolKind.ofJson?_toJson symbol.kind
  have type := carried.type.optional?_eq fun json => TypeInfo.ofJson?_of_carried
  have properties := carried.properties.optional?_eq fun json =>
    properties?_eq storable.properties
  rw [ofJson?, record?_object (by simp [fieldNames, carried.name.once, carried.kind.once,
    carried.type.once, carried.container.once, carried.byReference.once, carried.builtin.once,
    carried.declaration.once, carried.properties.once])]
  simp only [name, kind, type, optional?_id carried.container storable.container,
    optional?_bool carried.byReference, optional?_bool carried.builtin,
    optional?_id carried.declaration storable.declaration, properties, bind, Option.bind, pure]

namespace Model

variable {model : Model}

/-- Every number of a model fits the width in which it is written, and the properties of each
symbol are in the order of their names. -/
structure Storable (model : Model) : Prop where
  root : model.root < 2 ^ 32
  nodes : ∀ node ∈ model.nodes, node.Storable
  symbols : ∀ symbol ∈ model.symbols, symbol.Storable

structure CarriedBy (model : Model) (fields : Fields) : Prop where
  filePath : fields.Gives "file_path" (IsText model.filePath)
  root : fields.MayGive "root" (model.root = 0) (IsNat model.root)
  nodes : fields.Gives "nodes" (IsArray (fun node => IsObject node.CarriedBy) model.nodes.toList)
  symbols : fields.MayGive "symbols" (model.symbols.toList = [])
    (IsArray (fun symbol => IsObject symbol.CarriedBy) model.symbols.toList)

theorem ofJson?_of_carried (storable : model.Storable) {value : Value}
    (carried : IsObject model.CarriedBy value) : ofJson? value = some model := by
  obtain ⟨fields, rfl, carried⟩ := carried
  have filePath := carried.filePath.required?_eq fun json isText =>
    isText ▸ string?_string model.filePath
  have root := carried.root.optional?_eq fun json => word?_id storable.root
  have nodes := carried.nodes.required?_eq fun json isArray =>
    isArray.listOf?_eq fun node member json =>
      Node.ofJson?_of_carried (storable.nodes node (by simpa using member))
  have symbols := carried.symbols.optional?_eq fun json isArray =>
    isArray.listOf?_eq fun symbol member json =>
      Symbol.ofJson?_of_carried (storable.symbols symbol (by simpa using member))
  rw [ofJson?, record?_object (by simp [carried.filePath.once, carried.root.once,
    carried.nodes.once, carried.symbols.once])]
  simp only [filePath, root, nodes, symbols, bind, Option.bind, pure, Array.toArray_toList]

/-- Every text of an object that carries an accepted model is read as the model. -/
theorem read_of_carried (accepted : model.check = .ok ()) (storable : model.Storable)
    {value : Value} (carried : IsObject model.CarriedBy value) {text : String}
    (spelled : Json.Spells value text.toList) : read text = .ok model := by
  refine read_eq_ok_iff.mpr ⟨?_, accepted⟩
  simp only [spelled.parse?, bind, Option.bind, ofJson?_of_carried storable carried]

/-- A page with a card. -/
def card : Model where
  filePath := "Card.al"
  nodes := #[
    { kind := .compilationUnit, children := [1] },
    { kind := .object .page, parent := some 0, declares := some 0 }]
  symbols := #[
    { name := "Card", kind := .object .page,
      properties := [("Caption", "Card"), ("PageType", "Card")] }]

/-- The page as it is written by some other program. -/
def cardDump : Value :=
  .object [
    ("symbols", .array [.object [
      ("properties", .object [("PageType", .string "Card"), ("Caption", .string "Card")]),
      ("scope", .null),
      ("kind", .object [("Object", .string "Page")]),
      ("name", .string "Card")]]),
    ("compiler", .object [("name", .array [.ofNat 25, .bool true])]),
    ("nodes", .array [
      .object [("children", .array [.ofNat 1]), ("kind", .string "CompilationUnit")],
      .object [
        ("declares", .ofNat 0), ("text", .null), ("parent", .ofNat 0), ("line", .ofNat 7),
        ("kind", .object [("Object", .string "Page")])]]),
    ("file_path", .string "Card.al")]

theorem read_of_carried_cardDump : read (Json.write .spread cardDump) = .ok card := by
  have accepted : card.check = .ok () := by decide +kernel
  have nodes : ∀ node ∈ card.nodes, node.Storable := by
    intro node member
    simp only [card, List.mem_toArray, List.mem_cons, List.not_mem_nil, or_false] at member
    rcases member with rfl | rfl
    · exact ⟨⟨by decide, by decide, by decide, by decide⟩, by simp, by simp, by simp, by simp⟩
    · exact ⟨⟨by decide, by decide, by decide, by decide⟩, by simp, by simp, by simp, by simp⟩
  have symbols : ∀ symbol ∈ card.symbols, symbol.Storable := by
    intro symbol member
    simp only [card, List.mem_toArray, List.mem_singleton] at member
    subst member
    exact ⟨by simp, by simp, by decide +kernel⟩
  have plain : cardDump.Plain := by
    simp [cardDump, Json.Value.plain_array_iff, Json.Value.plain_object_iff, Plain.null, Plain.bool,
      Plain.string, Plain.ofNat]
  have root : Node.CarriedBy { kind := .compilationUnit, children := [1] } [
      ("children", .array [.ofNat 1]), ("kind", .string "CompilationUnit")] :=
    ⟨⟨_, rfl, rfl⟩, .inr ⟨rfl, rfl⟩, .inr ⟨rfl, rfl⟩, .inl ⟨_, rfl, _, rfl, .cons rfl .nil⟩,
      .inr ⟨rfl, rfl⟩, .inr ⟨rfl, rfl⟩, .inr ⟨rfl, rfl⟩, .inr ⟨rfl, rfl⟩⟩
  have page : Node.CarriedBy { kind := .object .page, parent := some 0, declares := some 0 } [
      ("declares", .ofNat 0), ("text", .null), ("parent", .ofNat 0), ("line", .ofNat 7),
      ("kind", .object [("Object", .string "Page")])] :=
    ⟨⟨_, rfl, rfl⟩, .inr ⟨rfl, rfl⟩, .inl ⟨_, rfl, rfl⟩, .inr ⟨rfl, rfl⟩, .inl ⟨_, rfl, rfl⟩,
      .inr ⟨rfl, rfl⟩, .inl ⟨_, rfl, rfl⟩, .inr ⟨rfl, rfl⟩⟩
  have properties : Symbol.ListsProperties [("Caption", "Card"), ("PageType", "Card")]
      (.object [("PageType", .string "Card"), ("Caption", .string "Card")]) :=
    ⟨[("PageType", "Card"), ("Caption", "Card")], .swap _ _ _, rfl⟩
  have carried : IsObject card.CarriedBy cardDump := by
    refine ⟨_, rfl, ⟨_, rfl, rfl⟩, .inr ⟨rfl, rfl⟩, ⟨_, rfl, _, rfl, ?_⟩, .inl ⟨_, rfl, _, rfl, ?_⟩⟩
    · exact .cons ⟨_, rfl, root⟩ (.cons ⟨_, rfl, page⟩ .nil)
    · exact .cons ⟨_, rfl, ⟨_, rfl, rfl⟩, ⟨_, rfl, rfl⟩, .inr ⟨rfl, rfl⟩, .inr ⟨rfl, rfl⟩,
        .inr ⟨rfl, rfl⟩, .inr ⟨rfl, rfl⟩, .inr ⟨rfl, rfl⟩, .inl ⟨_, rfl, properties⟩⟩ .nil
  refine read_of_carried accepted ⟨by decide, nodes, symbols⟩ carried ?_
  rw [Json.write, String.toList_ofList]
  exact plain.spells .spread 0

end Model

end ModelLint
