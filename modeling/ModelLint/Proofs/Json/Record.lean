import Mathlib.Algebra.Group.Nat.Defs
import Mathlib.Data.List.Nodup
import ModelLint.Json.Record
import ModelLint.Proofs.Json.RoundTrip
import ModelLint.Proofs.Lookup

namespace ModelLint.Json

/-! Records are read field by field, wherever their fields stand and whatever else stands
between them. -/

variable {α : Type} {fields : Fields} {name : String} {read : Value → Option α} {write : α → Value}

theorem mapM_map {β : Type} {read : β → Option α} {write : α → β} {items : List α}
    (each : ∀ item ∈ items, read (write item) = some item) :
    (items.map write).mapM read = some items := by
  induction items with
  | nil => rfl
  | cons item others ih =>
      have here := each item (by simp)
      have later := ih fun other member => each other (List.mem_cons_of_mem _ member)
      simp [here, later]

theorem keys_presentField (name : String) (write : α → Value) (value : Option α) :
    ((presentField name write value).map (·.1)).Sublist [name] := by
  cases value with
  | none => exact List.nil_sublist _
  | some value => exact List.Sublist.refl _

@[simp]
theorem lookup_presentField (key name : String) (write : α → Value) (value : Option α) :
    (presentField name write value).lookup key = if key = name then value.map write else none := by
  cases value with
  | none => simp [presentField]
  | some value =>
      by_cases same : key = name
      · simp [presentField, same]
      · have differs : (key == name) = false := by simpa using same
        simp [presentField, List.lookup_cons, differs, same]

/-- A field that is left out under a condition is one that is left out when it holds nothing. -/
theorem ite_eq_presentField (absent : Bool) (name : String) (value : Value) :
    (if absent then [] else [(name, value)]) =
      presentField name id (if absent then none else some value) := by
  cases absent <;> rfl

namespace Value

/-- An object with fields of some kind. -/
def IsObject (holds : Fields → Prop) (value : Value) : Prop :=
  ∃ fields, value = .object fields ∧ holds fields

/-- An array of the given items. -/
def IsArray (fits : α → Value → Prop) (items : List α) (value : Value) : Prop :=
  ∃ values, value = .array values ∧ List.Forall₂ fits items values

/-- What is there, or else `null`. -/
def OrNull (fits : α → Value → Prop) : Option α → Value → Prop
  | none, value => value = .null
  | some content, value => fits content value

def IsNat (number : Nat) (value : Value) : Prop :=
  value = .ofNat number

def IsText (text : String) (value : Value) : Prop :=
  value = .string text

end Value

namespace Fields

/-- A field stands in an object once, wherever that is. -/
def Gives (fields : Fields) (name : String) (fits : Value → Prop) : Prop :=
  ∃ value, fields.filter (·.1 == name) = [(name, value)] ∧ fits value

/-- A field stands in an object once, or is left out because it holds its default. -/
def MayGive (fields : Fields) (name : String) (isDefault : Prop) (fits : Value → Prop) : Prop :=
  fields.Gives name fits ∨ isDefault ∧ fields.filter (·.1 == name) = []

theorem lookup_eq_head? (fields : Fields) (name : String) :
    fields.lookup name = (fields.filter (·.1 == name)).head?.map (·.2) := by
  rw [lookup_eq_find?, List.head?_filter]
  rfl

theorem filter_eq_lookup (once : (fields.filter (·.1 == name)).length ≤ 1) :
    fields.filter (·.1 == name) = (fields.lookup name).toList.map (name, ·) := by
  rw [lookup_eq_head?]
  have named : ∀ field ∈ fields.filter (·.1 == name), field.1 = name := by
    intro field member
    simpa using (List.mem_filter.mp member).2
  generalize fields.filter (·.1 == name) = found at once named
  match found with
  | [] => rfl
  | [field] =>
      obtain rfl := named field (by simp)
      rfl
  | _ :: _ :: _ => simp at once

variable {fits : Value → Prop} {value default : α} {isDefault : Prop}

theorem Gives.once (gives : fields.Gives name fits) :
    (fields.filter (·.1 == name)).length ≤ 1 := by
  obtain ⟨json, alone, _⟩ := gives
  simp [alone]

theorem MayGive.once (given : fields.MayGive name isDefault fits) :
    (fields.filter (·.1 == name)).length ≤ 1 := by
  rcases given with gives | ⟨_, absent⟩
  · exact gives.once
  · simp [absent]

theorem Gives.required?_eq (gives : fields.Gives name fits)
    (reads : ∀ json, fits json → read json = some value) :
    fields.required? name read = some value := by
  obtain ⟨json, alone, fit⟩ := gives
  simp [required?, lookup_eq_head?, alone, reads json fit]

theorem MayGive.optional?_eq (given : fields.MayGive name (value = default) fits)
    (reads : ∀ json, fits json → read json = some value) :
    fields.optional? name default read = some value := by
  rcases given with ⟨json, alone, fit⟩ | ⟨rfl, absent⟩
  · simp [optional?, lookup_eq_head?, alone, reads json fit]
  · simp [optional?, lookup_eq_head?, absent]

theorem gives_of_lookup {json : Value} (distinct : (fields.map (·.1)).Nodup)
    (found : fields.lookup name = some json) (fit : fits json) : fields.Gives name fits := by
  have once := List.nodup_iff_count_le_one.mp distinct name
  rw [List.count, List.countP_map, List.countP_eq_length_filter] at once
  exact ⟨json, by rw [filter_eq_lookup once, found]; rfl, fit⟩

theorem mayGive_of_lookup {json : Option Value} (distinct : (fields.map (·.1)).Nodup)
    (found : fields.lookup name = json) (fit : ∀ given, json = some given → fits given)
    (absent : json = none → isDefault) : fields.MayGive name isDefault fits := by
  cases json with
  | some given => exact .inl (gives_of_lookup distinct found (fit given rfl))
  | none =>
      rw [lookup_eq_head?, Option.map_eq_none_iff, List.head?_eq_none_iff] at found
      exact .inr ⟨absent rfl, found⟩

/-- A field that is left out when it holds nothing. -/
theorem mayGive_present {fits : α → Value → Prop} {content : Option α}
    (distinct : (fields.map (·.1)).Nodup) (found : fields.lookup name = content.map write)
    (fit : ∀ item, fits item (write item)) :
    fields.MayGive name (content = none) (Value.OrNull fits content) := by
  refine mayGive_of_lookup distinct found (fun given isGiven => ?_) Option.map_eq_none_iff.mp
  obtain ⟨item, rfl, rfl⟩ := Option.map_eq_some_iff.mp isGiven
  exact fit item

/-- A field that is left out when it holds its default. -/
theorem mayGive_unless {absent : Bool} {json : Value} (distinct : (fields.map (·.1)).Nodup)
    (found : fields.lookup name = if absent then none else some json) (fit : fits json)
    (isLeftOut : absent = true → isDefault) : fields.MayGive name isDefault fits := by
  cases absent with
  | true => exact mayGive_of_lookup distinct found (by simp) fun _ => isLeftOut rfl
  | false => exact .inl (gives_of_lookup distinct (by simpa using found) fit)

end Fields

theorem record?_object {names : List String}
    (once : ∀ name ∈ names, (fields.filter (·.1 == name)).length ≤ 1) :
    record? names (.object fields) = some fields :=
  if_pos (List.all_eq_true.mpr fun name member => decide_eq_true (once name member))

namespace Value

theorem word?_ofNat {bits value : Nat} (small : value < 2 ^ bits) :
    word? bits (ofNat value) = some value := by
  simp [word?, ofNat, nat?, Option.filter, small]

variable {fits : α → Value → Prop} {value : Value}

theorem IsArray.listOf?_eq {items : List α} (isArray : IsArray fits items value)
    (reads : ∀ item ∈ items, ∀ json, fits item json → read json = some item) :
    listOf? read value = some items := by
  obtain ⟨values, rfl, each⟩ := isArray
  change values.mapM read = some items
  induction each with
  | nil => rfl
  | @cons item json items values fit _ ih =>
      have here := reads item (by simp) json fit
      have later := ih fun other member => reads other (List.mem_cons_of_mem _ member)
      simp [here, later]

theorem OrNull.nullable?_eq {content : Option α} (given : OrNull fits content value)
    (reads : ∀ item, content = some item → ∀ json, fits item json →
      json ≠ .null ∧ read json = some item) : nullable? read value = some content := by
  cases content with
  | none =>
      obtain rfl : value = .null := given
      rfl
  | some item =>
      obtain ⟨notNull, isRead⟩ := reads item rfl value given
      rw [nullable?.eq_def]
      split
      · contradiction
      · rw [isRead]
        rfl

theorem isArray_map {write : α → Value} {items : List α}
    (each : ∀ item ∈ items, fits item (write item)) :
    IsArray fits items (.array (items.map write)) := by
  refine ⟨_, rfl, ?_⟩
  rw [List.forall₂_map_right_iff, List.forall₂_same]
  exact each

theorem string?_string (text : String) : string? (.string text) = some text := rfl

theorem bool?_bool (value : Bool) : bool? (.bool value) = some value := rfl

theorem Plain.ofNat (value : Nat) : Plain (Value.ofNat value) :=
  .number _

theorem Plain.presentField {α : Type} {name : String} {write : α → Value} {value : Option α}
    (plain : ∀ content, Plain (write content)) :
    ∀ field ∈ Json.presentField name write value, Plain field.2 := by
  cases value with
  | none => simp [Json.presentField]
  | some content => simpa [Json.presentField] using plain content

theorem Plain.ite {absent : Bool} {name : String} {value : Value} (plain : Plain value) :
    ∀ field ∈ (if absent then [] else [(name, value)]), Plain field.2 := by
  cases absent with
  | true => simp
  | false => simpa using plain

theorem Plain.map {α : Type} {write : α → Value} (plain : ∀ item, Plain (write item))
    (items : List α) : Plain (.array (items.map write)) := by
  refine .array fun value member => ?_
  obtain ⟨item, _, rfl⟩ := List.mem_map.mp member
  exact plain item

end Value

end ModelLint.Json
