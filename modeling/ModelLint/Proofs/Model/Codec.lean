import ModelLint.Proofs.Model.Decoding

namespace ModelLint

/-! A model file gives back the model that it was written from: the objects that a model is written
as carry its records. -/

open Json (Value Fields keys_presentField ite_eq_presentField)
open Json.Fields (gives_of_lookup mayGive_present mayGive_unless)
open Json.Value (Plain IsObject IsNat OrNull isArray_map)

theorem Span.carried_toJson (span : Span) : IsObject span.CarriedBy span.toJson := by
  have distinct : ["line", "column", "offset", "length"].Nodup := by decide
  refine ⟨_, rfl, ?_, ?_, ?_, ?_⟩
  all_goals exact gives_of_lookup distinct (by simp [List.lookup_cons]) rfl

/-- The fields that a node is written with. -/
theorem Node.toJson_eq_object (node : Node) :
    ∃ fields : Fields, node.toJson = .object fields ∧ (fields.map (·.1)).Nodup ∧
      fields.lookup "kind" = some node.kind.toJson ∧
      fields.lookup "span" = some node.span.toJson ∧
      fields.lookup "parent" = some ((node.parent.map Value.ofNat).getD .null) ∧
      fields.lookup "children" = some (.array (node.children.map Value.ofNat)) ∧
      fields.lookup "text" = node.text.map Value.string ∧
      fields.lookup "symbol" = node.symbol.map Value.ofNat ∧
      fields.lookup "declares" = node.declares.map Value.ofNat ∧
      fields.lookup "comments" =
        if node.comments.isEmpty then none else some (.array (node.comments.map Value.string)) := by
  rw [toJson, ite_eq_presentField]
  refine ⟨_, rfl, ?_, ?_, ?_, ?_, ?_, ?_, ?_, ?_, ?_⟩
  · have names : fieldNames.Nodup := by decide
    refine List.Sublist.nodup ?_ names
    simp only [List.map_append]
    exact (((List.Sublist.refl ["kind", "span", "parent", "children"]).append
      (keys_presentField _ _ _)).append (keys_presentField _ _ _)).append
        (keys_presentField _ _ _) |>.append (keys_presentField _ _ _)
  all_goals simp [List.lookup_append, List.lookup_cons]

theorem orNull_getD (id : Option Nat) : OrNull IsNat id ((id.map Value.ofNat).getD .null) := by
  cases id <;> rfl

theorem Node.carried_toJson (node : Node) : IsObject node.CarriedBy node.toJson := by
  obtain ⟨fields, written, distinct, kind, span, parent, children, text, symbol, declares,
    comments⟩ := node.toJson_eq_object
  exact ⟨fields, written, {
    kind := gives_of_lookup distinct kind rfl
    span := .inl (gives_of_lookup distinct span node.span.carried_toJson)
    parent := .inl (gives_of_lookup distinct parent (orNull_getD node.parent))
    children := .inl (gives_of_lookup distinct children (isArray_map fun _ _ => rfl))
    text := mayGive_present distinct text fun _ => rfl
    symbol := mayGive_present distinct symbol fun _ => rfl
    declares := mayGive_present distinct declares fun _ => rfl
    comments := mayGive_unless distinct comments (isArray_map fun _ _ => rfl)
      List.isEmpty_iff.mp }⟩

/-- The fields that a type is written with. -/
theorem TypeInfo.toJson_eq_object (type : TypeInfo) :
    ∃ fields : Fields, type.toJson = .object fields ∧ (fields.map (·.1)).Nodup ∧
      fields.lookup "kind" = some (.string type.kind.label) ∧
      fields.lookup "name" = type.name.map Value.string ∧
      fields.lookup "temporary" = some (.bool type.temporary) := by
  refine ⟨_, rfl, ?_, ?_, ?_, ?_⟩
  · have names : ["kind", "name", "temporary"].Nodup := by decide
    refine List.Sublist.nodup ?_ names
    simp only [List.map_append]
    exact ((List.Sublist.refl ["kind"]).append (keys_presentField _ _ _)).append (.refl _)
  all_goals simp [List.lookup_append, List.lookup_cons]

theorem TypeInfo.carried_toJson (type : TypeInfo) : IsObject type.CarriedBy type.toJson := by
  obtain ⟨fields, written, distinct, kind, name, temporary⟩ := type.toJson_eq_object
  exact ⟨fields, written, {
    kind := gives_of_lookup distinct kind rfl
    name := mayGive_present distinct name fun _ => rfl
    temporary := .inl (gives_of_lookup distinct temporary rfl) }⟩

/-- The fields that a symbol is written with. -/
theorem Symbol.toJson_eq_object (symbol : Symbol) :
    ∃ fields : Fields, symbol.toJson = .object fields ∧ (fields.map (·.1)).Nodup ∧
      fields.lookup "name" = some (.string symbol.name) ∧
      fields.lookup "kind" = some symbol.kind.toJson ∧
      fields.lookup "ty" = some symbol.type.toJson ∧
      fields.lookup "container" = symbol.container.map Value.ofNat ∧
      fields.lookup "by_reference" = some (.bool symbol.byReference) ∧
      fields.lookup "builtin" = some (.bool symbol.builtin) ∧
      fields.lookup "declaration" = symbol.declaration.map Value.ofNat ∧
      fields.lookup "properties" =
        if symbol.properties.isEmpty then none
        else some (.object (symbol.properties.map fun (key, value) => (key, .string value))) := by
  rw [toJson, ite_eq_presentField]
  refine ⟨_, rfl, ?_, ?_, ?_, ?_, ?_, ?_, ?_, ?_, ?_⟩
  · have names : fieldNames.Nodup := by decide
    refine List.Sublist.nodup ?_ names
    simp only [List.map_append]
    exact ((((List.Sublist.refl ["name", "kind", "ty"]).append (keys_presentField _ _ _)).append
      (.refl ["by_reference", "builtin"])).append (keys_presentField _ _ _)).append
        (keys_presentField _ _ _)
  all_goals simp [List.lookup_append, List.lookup_cons]

theorem Symbol.carried_toJson (symbol : Symbol) : IsObject symbol.CarriedBy symbol.toJson := by
  obtain ⟨fields, written, distinct, name, kind, type, container, byReference, builtin,
    declaration, properties⟩ := symbol.toJson_eq_object
  exact ⟨fields, written, {
    name := gives_of_lookup distinct name rfl
    kind := gives_of_lookup distinct kind rfl
    type := .inl (gives_of_lookup distinct type symbol.type.carried_toJson)
    container := mayGive_present distinct container fun _ => rfl
    byReference := .inl (gives_of_lookup distinct byReference rfl)
    builtin := .inl (gives_of_lookup distinct builtin rfl)
    declaration := mayGive_present distinct declaration fun _ => rfl
    properties := mayGive_unless distinct properties ⟨_, .refl _, rfl⟩ List.isEmpty_iff.mp }⟩

namespace Model

variable {model : Model}

theorem carried_toJson (model : Model) : IsObject model.CarriedBy model.toJson := by
  have distinct : ["file_path", "root", "nodes", "symbols"].Nodup := by decide
  exact ⟨_, rfl, {
    filePath := gives_of_lookup distinct (by simp) rfl
    root := .inl (gives_of_lookup distinct (by simp [List.lookup_cons]) rfl)
    nodes := gives_of_lookup distinct (by simp [List.lookup_cons])
      (isArray_map fun node _ => node.carried_toJson)
    symbols := .inl (gives_of_lookup distinct (by simp [List.lookup_cons])
      (isArray_map fun symbol _ => symbol.carried_toJson)) }⟩

theorem ofJson?_toJson (storable : model.Storable) : ofJson? model.toJson = some model :=
  ofJson?_of_carried storable model.carried_toJson

end Model

theorem NodeKind.plain_toJson (kind : NodeKind) : Plain kind.toJson := by
  cases kind with
  | object kind => exact .object (by simp [Plain.string])
  | _ => exact .string _

theorem SymbolKind.plain_toJson (kind : SymbolKind) : Plain kind.toJson := by
  cases kind with
  | object kind => exact .object (by simp [Plain.string])
  | _ => exact .string _

theorem Span.plain_toJson (span : Span) : Plain span.toJson :=
  .object (by simp [Plain.ofNat])

theorem Node.plain_toJson (node : Node) : Plain node.toJson := by
  have parent : Plain ((node.parent.map Value.ofNat).getD .null) := by
    cases node.parent with
    | none => exact .null
    | some id => exact Plain.ofNat id
  have first : ∀ field ∈ [("kind", node.kind.toJson), ("span", node.span.toJson),
      ("parent", (node.parent.map Value.ofNat).getD .null),
      ("children", .array (node.children.map Value.ofNat))], Plain field.2 := by
    simp [NodeKind.plain_toJson, Span.plain_toJson, parent, Plain.map Plain.ofNat]
  refine .object ?_
  simp only [List.forall_mem_append]
  exact ⟨⟨⟨⟨first, Plain.presentField .string⟩, Plain.presentField Plain.ofNat⟩,
    Plain.presentField Plain.ofNat⟩, Plain.ite (Plain.map .string _)⟩

theorem TypeInfo.plain_toJson (type : TypeInfo) : Plain type.toJson := by
  refine .object ?_
  simp only [List.forall_mem_append]
  exact ⟨⟨by simp [Plain.string], Plain.presentField .string⟩, by simp [Plain.bool]⟩

theorem Symbol.plain_toJson (symbol : Symbol) : Plain symbol.toJson := by
  have properties : Plain (.object (symbol.properties.map fun (key, value) =>
      (key, .string value))) := by
    refine .object fun field member => ?_
    obtain ⟨property, _, rfl⟩ := List.mem_map.mp member
    exact .string _
  refine .object ?_
  simp only [List.forall_mem_append]
  exact ⟨⟨⟨⟨by simp [Plain.string, SymbolKind.plain_toJson, TypeInfo.plain_toJson],
    Plain.presentField Plain.ofNat⟩, by simp [Plain.bool]⟩, Plain.presentField Plain.ofNat⟩,
    Plain.ite properties⟩

namespace Model

variable {model : Model}

theorem plain_toJson (model : Model) : Plain model.toJson :=
  .object (by simp [Plain.string, Plain.ofNat, Plain.map Node.plain_toJson,
    Plain.map Symbol.plain_toJson])

/-- Reading the file that an accepted model is written to gives back the model. -/
theorem read_write (accepted : model.check = .ok ()) (storable : model.Storable) :
    read model.write = .ok model := by
  refine read_eq_ok_iff.mpr ⟨?_, accepted⟩
  have parsed : Json.parse? model.write = some model.toJson :=
    Json.parse?_write model.plain_toJson .spread
  simp only [parsed, bind, Option.bind, ofJson?_toJson storable]

/-- A table whose names and comments need escapes, with the largest numbers that fit. -/
def escapedTable : Model where
  filePath := "Übung\"\\.al"
  nodes := #[
    { kind := .compilationUnit, children := [1] },
    { kind := .object .table, span := ⟨1, 1, 2 ^ 64 - 1, 0⟩, parent := some 0,
      text := some "Tab\t\x01", declares := some 0, comments := ["// \n", ""] }]
  symbols := #[
    { name := "", kind := .object .table, declaration := some 1,
      properties := [("Caption", "\x7b𝄞\x7d"), ("caption", "")] }]

theorem read_write_escapedTable : read escapedTable.write = .ok escapedTable := by
  have accepted : escapedTable.check = .ok () := by decide +kernel
  have nodes : ∀ node ∈ escapedTable.nodes, node.Storable := by
    intro node member
    simp only [escapedTable, List.mem_toArray, List.mem_cons, List.not_mem_nil, or_false] at member
    rcases member with rfl | rfl
    · exact ⟨⟨by decide, by decide, by decide, by decide⟩, by simp, by simp, by simp, by simp⟩
    · exact ⟨⟨by decide, by decide, by decide, by decide⟩, by simp, by simp, by simp, by simp⟩
  have symbols : ∀ symbol ∈ escapedTable.symbols, symbol.Storable := by
    intro symbol member
    simp only [escapedTable, List.mem_toArray, List.mem_singleton] at member
    subst member
    exact ⟨by simp, by simp, by decide +kernel⟩
  exact read_write accepted ⟨by decide, nodes, symbols⟩

end Model

end ModelLint
