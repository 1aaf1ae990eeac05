import ModelLint.Proofs.Json.Grammar

namespace ModelLint.Json

/-! What is written is read back: in either layout and at any depth, the text that a value is
written as spells the value. -/

/-- A value that denotes text wherever it has strings or keys. -/
inductive Value.Plain : Value → Prop where
  | null : Plain .null
  | bool (value : Bool) : Plain (.bool value)
  | number (value : Number) : Plain (.number value)
  | string (value : String) : Plain (.string value)
  | array {items : List Value} (each : ∀ item ∈ items, Plain item) : Plain (.array items)
  | object {fields : List (String × Value)} (each : ∀ field ∈ fields, Plain field.2) :
      Plain (.object fields)

theorem Value.plain_array_iff {items : List Value} :
    Plain (.array items) ↔ ∀ item ∈ items, Plain item := by
  refine ⟨fun plain => ?_, .array⟩
  cases plain with
  | array each => exact each

theorem Value.plain_object_iff {fields : List (String × Value)} :
    Plain (.object fields) ↔ ∀ field ∈ fields, Plain field.2 := by
  refine ⟨fun plain => ?_, .object⟩
  cases plain with
  | object each => exact each

variable {layout : Layout} {depth outer : Nat} {value : Value} {text : List Char}

theorem blank_lineBreak (layout : Layout) (depth : Nat) : Blank (layout.lineBreak depth) := by
  cases layout with
  | compact => simp [Blank, Layout.lineBreak]
  | spread =>
      refine List.forall_mem_cons.mpr ⟨rfl, fun c member => ?_⟩
      obtain rfl := List.eq_of_mem_replicate member
      rfl

theorem Spells.lineBreak (spells : Spells value text) (layout : Layout) (depth : Nat) :
    Spells value (layout.lineBreak depth ++ text) := by
  have padded := Spells.padded (blank_lineBreak layout depth) spells (by simp [Blank] : Blank [])
  rwa [List.append_nil] at padded

theorem Spells.append_lineBreak (spells : Spells value text) (layout : Layout) (depth : Nat) :
    Spells value (text ++ layout.lineBreak depth) :=
  .padded (by simp [Blank] : Blank []) spells (blank_lineBreak layout depth)

/-- The items from some item on, with the line break behind the last of them. -/
theorem exists_items (layout : Layout) (depth outer : Nat) {first : Value}
    (spells : Spells first text) {others : List Value}
    (each : ∀ item ∈ others, Spells item (writeValue layout depth item)) :
    ∃ items : List (Value × List Char), items ≠ [] ∧ (∀ item ∈ items, Spells item.1 item.2) ∧
      items.map (·.1) = first :: others ∧
      [','].intercalate (items.map (·.2)) =
        text ++ (writeItems layout depth others ++ layout.lineBreak outer) := by
  induction others generalizing first text with
  | nil =>
      refine ⟨[(first, text ++ layout.lineBreak outer)], by simp, ?_, rfl, ?_⟩
      · simpa using spells.append_lineBreak layout outer
      · simp [writeItems]
  | cons next others ih =>
      obtain ⟨items, nonempty, spelled, values, joined⟩ :=
        ih ((each next (by simp)).lineBreak layout depth) fun item member =>
          each item (by simp [member])
      obtain ⟨second, rest, rfl⟩ := List.exists_cons_of_ne_nil nonempty
      refine ⟨(first, text) :: second :: rest, by simp, ?_, by simp [values], ?_⟩
      · exact List.forall_mem_cons.mpr ⟨spells, spelled⟩
      · rw [List.map_cons, List.map_cons, List.intercalate_cons_cons, ← List.map_cons, joined]
        simp [writeItems]

theorem spells_array {items : List Value}
    (each : ∀ item ∈ items, ∀ depth, Spells item (writeValue layout depth item)) :
    Spells (.array items) (writeValue layout depth (.array items)) := by
  cases items with
  | nil => exact .emptyArray (by simp [Blank] : Blank [])
  | cons first others =>
      obtain ⟨items, nonempty, spelled, values, joined⟩ :=
        exists_items layout (depth + 1) depth
          ((each first (by simp) (depth + 1)).lineBreak layout (depth + 1))
          fun item (member : item ∈ others) => each item (by simp [member]) (depth + 1)
      have spells := Spells.array nonempty spelled
      rw [values, joined] at spells
      simpa [writeValue] using spells

theorem keyText_written (key : String) :
    KeyText (some key) (layout.lineBreak depth ++ writeString key) := by
  obtain ⟨pieces, literal, denotes⟩ := exists_literal key
  have denoted : (charsOf? pieces).map String.ofList = some key := by
    rw [stringValue] at denotes
    cases chars : charsOf? pieces <;> simp_all
  have padded := KeyText.padded (blank_lineBreak layout depth) literal (by simp [Blank] : Blank [])
  rwa [denoted, List.append_nil] at padded

theorem Spells.colon (spells : Spells value text) (layout : Layout) :
    ∃ valueText, Spells value valueText ∧ layout.colon ++ text = ':' :: valueText := by
  cases layout with
  | compact => exact ⟨text, spells, rfl⟩
  | spread =>
      have padded := Spells.padded (by simp [Blank, isSpace] : Blank [' ']) spells
        (by simp [Blank] : Blank [])
      exact ⟨' ' :: text, by simpa using padded, rfl⟩

/-- The fields from some field on, with the line break behind the last of them. -/
theorem exists_members (layout : Layout) (depth outer : Nat) {first : Member} {key : String}
    (isKey : first.key = some key)
    (written : KeyText first.key first.keyText) (spells : Spells first.value first.valueText)
    {others : List (String × Value)}
    (each : ∀ field ∈ others, Spells field.2 (writeValue layout depth field.2)) :
    ∃ members : List Member, members ≠ [] ∧
      (∀ member ∈ members, KeyText member.key member.keyText) ∧
      (∀ member ∈ members, Spells member.value member.valueText) ∧
      (members.map fun member => (member.key, member.value)) =
        ((key, first.value) :: others).map (fun field => (some field.1, field.2)) ∧
      [','].intercalate (members.map Member.text) =
        first.text ++ (writeFields layout depth others ++ layout.lineBreak outer) := by
  induction others generalizing first key with
  | nil =>
      refine ⟨[{ first with valueText := first.valueText ++ layout.lineBreak outer }], by simp,
        by simpa using written, by simpa using spells.append_lineBreak layout outer,
        by simp [isKey], ?_⟩
      simp [Member.text, writeFields]
  | cons next others ih =>
      obtain ⟨valueText, nextSpells, colon⟩ := (each next (by simp)).colon layout
      obtain ⟨members, nonempty, keys, spelled, values, joined⟩ :=
        ih (show Member.key ⟨some next.1, layout.lineBreak depth ++ writeString next.1, next.2,
            valueText⟩ = some next.1 from rfl)
          (keyText_written next.1) nextSpells fun field member => each field (by simp [member])
      obtain ⟨second, rest, rfl⟩ := List.exists_cons_of_ne_nil nonempty
      refine ⟨first :: second :: rest, by simp, List.forall_mem_cons.mpr ⟨written, keys⟩,
        List.forall_mem_cons.mpr ⟨spells, spelled⟩, by simp [isKey, values], ?_⟩
      rw [List.map_cons, List.map_cons, List.intercalate_cons_cons, ← List.map_cons, joined]
      simp [writeFields, Member.text, ← colon]

theorem mapM_keyed (fields : List (String × Value)) :
    (fields.map fun field => (some field.1, field.2)).mapM
      (fun (key, value) => key.map (·, value)) = some fields := by
  induction fields with
  | nil => rfl
  | cons field others ih => simp [ih]

theorem objectOf_written (fields : List (String × Value)) :
    objectOf (fields.map fun field => (some field.1, field.2)).reverse = .object fields := by
  rw [objectOf, List.reverse_reverse, mapM_keyed]

theorem spells_object {fields : List (String × Value)}
    (each : ∀ field ∈ fields, ∀ depth, Spells field.2 (writeValue layout depth field.2)) :
    Spells (.object fields) (writeValue layout depth (.object fields)) := by
  cases fields with
  | nil => exact .emptyObject (by simp [Blank] : Blank [])
  | cons field others =>
      obtain ⟨key, first⟩ := field
      obtain ⟨valueText, firstSpells, colon⟩ :=
        (each (key, first) (by simp) (depth + 1)).colon layout
      obtain ⟨members, nonempty, keys, spelled, values, joined⟩ :=
        exists_members layout (depth + 1) depth
          (show Member.key ⟨some key, layout.lineBreak (depth + 1) ++ writeString key, first,
            valueText⟩ = some key from rfl)
          (keyText_written key) firstSpells
          fun field (member : field ∈ others) => each field (by simp [member]) (depth + 1)
      have spells := Spells.object nonempty keys spelled
      rw [values, joined, objectOf_written] at spells
      simpa [writeValue, Member.text, ← colon] using spells

theorem Value.Plain.spells (plain : value.Plain) (layout : Layout) (depth : Nat) :
    Spells value (writeValue layout depth value) := by
  induction plain generalizing depth with
  | null => exact .scalar .null
  | bool value =>
      cases value with
      | true => exact .scalar .isTrue
      | false => exact .scalar .isFalse
  | number value =>
      obtain ⟨numeral, proper, text, rfl⟩ := exists_numeral value
      rw [writeValue, ← text]
      exact .scalar (.number proper)
  | string value =>
      obtain ⟨pieces, literal, denotes⟩ := exists_literal value
      rw [writeValue, ← denotes]
      exact .scalar (.string literal)
  | array _ each => exact spells_array each
  | object _ each => exact spells_object each

/-- Reading a text that was written gives the value that it was written from. -/
theorem parse?_write (plain : value.Plain) (layout : Layout) :
    parse? (write layout value) = some value := by
  refine Spells.parse? ?_
  rw [write, String.toList_ofList]
  exact plain.spells layout 0

end ModelLint.Json
