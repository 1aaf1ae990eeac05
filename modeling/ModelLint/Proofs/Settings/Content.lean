import ModelLint.Proofs.Json.Record
import ModelLint.Proofs.Text
import ModelLint.Settings

namespace ModelLint.ProjectSettings

open Json (Value Fields record?)
open Text

/-! What a settings file says.

A file has two fields that count, the affixes and the type. Of the affixes only the strings are
kept, and a type that is no string is none. The first affix that starts with the organization and a
blank names the project. -/

/-- The values that the fields of a settings file have, where they have any. The file is an object
with each of them once at most, or an array of both or the first of them. -/
inductive Fills : Value → (affixes type : Option Value) → Prop where
  | object {fields : Fields} {affixes type : Option Value}
      (affixesOnce : fields.filter (·.1 == "appSourceCopMandatoryAffixes") =
        affixes.toList.map ("appSourceCopMandatoryAffixes", ·))
      (typeOnce : fields.filter (·.1 == "type") = type.toList.map ("type", ·)) :
      Fills (.object fields) affixes type
  | empty : Fills (.array []) none none
  | first (affixes : Value) : Fills (.array [affixes]) (some affixes) none
  | both (affixes type : Value) : Fills (.array [affixes, type]) (some affixes) (some type)

/-- The affixes are the strings of a list, if there is one. -/
def GivesAffixes : Option Value → List String → Prop
  | none, affixes => affixes = []
  | some value, affixes => ∃ items, value = .array items ∧
      (∀ item ∈ items, isStorable (nestingLimit - 1) item = true) ∧
      affixes = items.filterMap Value.string?

/-- The type is a string, if there is one. -/
def GivesType : Option Value → Option String → Prop
  | none, type => type = none
  | some value, type => isStorable nestingLimit value = true ∧
      ∀ text, type = some text ↔ value = .string text

/-- The settings that the text of a file spells. -/
def Spells (text : String) (settings : ProjectSettings) : Prop :=
  ∃ value affixes type, Json.parse? text = some value ∧ Fills value affixes type ∧
    GivesAffixes affixes settings.affixes ∧ GivesType type settings.type

/-- An affix starts with the organization and a blank, and the rest of it is a name. -/
def NamesProject (organization affix name : String) : Prop :=
  ∃ lead rest, affix.toList = lead ++ ' ' :: rest ∧
    sameIgnoringCase (.ofList lead) organization = true ∧ Trims rest name.toList ∧ name ≠ ""

variable {text organization affix name : String} {settings : ProjectSettings} {value : Value}
  {affixes type : Option Value}

theorem fills_iff :
    Fills value affixes type ↔
      ∃ fields, record? ["appSourceCopMandatoryAffixes", "type"] value = some fields ∧
        fields.lookup "appSourceCopMandatoryAffixes" = affixes ∧ fields.lookup "type" = type := by
  constructor
  · intro given
    cases given with
    | @object fields affixes type affixesOnce typeOnce =>
        refine ⟨fields, Json.record?_object ?_, ?_, ?_⟩
        · simp only [List.forall_mem_cons, affixesOnce, typeOnce]
          cases affixes <;> cases type <;> simp
        · rw [Fields.lookup_eq_head?, affixesOnce]
          cases affixes <;> rfl
        · rw [Fields.lookup_eq_head?, typeOnce]
          cases type <;> rfl
    | empty => exact ⟨_, rfl, rfl, rfl⟩
    | first => exact ⟨_, rfl, rfl, rfl⟩
    | both => exact ⟨_, rfl, rfl, rfl⟩
  · rintro ⟨fields, isRecord, rfl, rfl⟩
    match value with
    | .object others =>
        simp only [record?, Option.ite_none_right_eq_some, Option.some.injEq] at isRecord
        obtain ⟨once, rfl⟩ := isRecord
        simp only [List.all_cons, Bool.and_eq_true, decide_eq_true_eq] at once
        exact .object (Fields.filter_eq_lookup once.1) (Fields.filter_eq_lookup once.2.1)
    | .array [] =>
        cases isRecord
        exact .empty
    | .array [affixes] =>
        cases isRecord
        exact .first affixes
    | .array [affixes, type] =>
        cases isRecord
        exact .both affixes type
    | .array (_ :: _ :: _ :: rest) => simp [record?] at isRecord

theorem mapM_storable_eq_some_iff {depth : Nat} {items kept : List Value} :
    items.mapM (storable? depth) = some kept ↔
      (∀ item ∈ items, isStorable depth item = true) ∧ items = kept := by
  induction items generalizing kept with
  | nil =>
      constructor
      · rintro ⟨⟩
        exact ⟨List.forall_mem_nil _, rfl⟩
      · rintro ⟨_, rfl⟩
        rfl
  | cons item rest ih =>
      simp only [List.mapM_cons, bind, Option.bind_eq_some_iff, storable?,
        Option.ite_none_right_eq_some, Option.some.injEq, pure, ih, List.forall_mem_cons]
      constructor
      · rintro ⟨_, ⟨here, rfl⟩, _, ⟨later, rfl⟩, rfl⟩
        exact ⟨⟨here, later⟩, rfl⟩
      · rintro ⟨⟨here, later⟩, rfl⟩
        exact ⟨item, ⟨here, rfl⟩, rest, ⟨later, rfl⟩, rfl⟩

theorem givesAffixes_iff {fields : Fields} {kept : List String} :
    GivesAffixes (fields.lookup "appSourceCopMandatoryAffixes") kept ↔
      ∃ items, fields.optional? "appSourceCopMandatoryAffixes" []
        (Value.listOf? (storable? (nestingLimit - 1))) = some items ∧
        items.filterMap Value.string? = kept := by
  rw [Fields.optional?]
  cases fields.lookup "appSourceCopMandatoryAffixes" with
  | none => simp [GivesAffixes, eq_comm]
  | some value =>
      simp only [GivesAffixes, Value.listOf?, bind, Option.bind_eq_some_iff,
        mapM_storable_eq_some_iff]
      constructor
      · rintro ⟨items, rfl, storable, rfl⟩
        exact ⟨items, ⟨items, rfl, storable, rfl⟩, rfl⟩
      · rintro ⟨_, ⟨items, isArray, storable, rfl⟩, rfl⟩
        cases value with
        | array others =>
            cases isArray
            exact ⟨items, rfl, storable, rfl⟩
        | _ => contradiction

theorem givesType_iff {fields : Fields} {kept : Option String} :
    GivesType (fields.lookup "type") kept ↔
      ∃ value, fields.optional? "type" .null (storable? nestingLimit) = some value ∧
        value.string? = kept := by
  have strings (value : Value) :
      (∀ text, kept = some text ↔ value = .string text) ↔ value.string? = kept := by
    rw [eq_comm, Option.ext_iff]
    refine forall_congr' fun text => iff_congr Iff.rfl ?_
    cases value <;> simp [Value.string?]
  rw [Fields.optional?]
  cases fields.lookup "type" with
  | none => simp [GivesType, Value.string?, eq_comm]
  | some value =>
      simp only [GivesType, strings, storable?, Option.ite_none_right_eq_some, Option.some.injEq]
      constructor
      · rintro ⟨storable, same⟩
        exact ⟨value, ⟨storable, rfl⟩, same⟩
      · rintro ⟨_, ⟨storable, rfl⟩, same⟩
        exact ⟨storable, same⟩

/-- A settings file can be read exactly if its text spells settings, and these are then read. -/
theorem parse?_eq_some_iff : parse? text = some settings ↔ Spells text settings := by
  simp only [parse?, bind, Option.bind_eq_some_iff, pure, Option.some.injEq]
  constructor
  · rintro ⟨value, parsed, fields, isRecord, items, affixes, given, type, rfl⟩
    exact ⟨value, _, _, parsed, fills_iff.mpr ⟨fields, isRecord, rfl, rfl⟩,
      givesAffixes_iff.mpr ⟨items, affixes, rfl⟩, givesType_iff.mpr ⟨given, type, rfl⟩⟩
  · rintro ⟨value, _, _, parsed, fills, affixes, type⟩
    obtain ⟨fields, isRecord, rfl, rfl⟩ := fills_iff.mp fills
    obtain ⟨items, isList, sameAffixes⟩ := givesAffixes_iff.mp affixes
    obtain ⟨given, isGiven, sameType⟩ := givesType_iff.mp type
    exact ⟨value, parsed, fields, isRecord, items, isList, given, isGiven,
      by rw [sameAffixes, sameType]⟩

theorem nameIn?_eq_some_iff :
    nameIn? organization affix = some name ↔ NamesProject organization affix name := by
  have skipped (rest : List Char) : trim (' ' :: rest) = trim rest := by
    have blank : Blanks [' '] := List.forall_mem_singleton.mpr (by decide)
    simpa using trim_padded rest blank (List.forall_mem_nil _)
  simp only [nameIn?, Option.ite_none_right_eq_some, Option.some.injEq]
  constructor
  · rintro ⟨⟨same, first, given⟩, rfl⟩
    obtain ⟨rest, split⟩ := List.head?_eq_some_iff.mp first
    rw [split, skipped] at given ⊢
    refine ⟨_, rest, ?_, same, ?_, ?_⟩
    · rw [← split, List.take_append_drop]
    · rw [String.toList_ofList]
      exact trims_trim rest
    · rwa [ne_eq, String.ofList_eq_empty_iff]
  · rintro ⟨lead, rest, split, same, trims, given⟩
    have size := length_of_sameIgnoringCase same
    rw [String.toList_ofList] at size
    rw [split, ← size, List.take_left, List.drop_left, skipped, trims.trim_eq, String.ofList_toList]
    exact ⟨⟨same, rfl, by simpa using given⟩, rfl⟩

theorem projectName?_eq_iff {project : Option String} :
    settings.projectName? organization = project ↔
      FirstOf (NamesProject organization) settings.affixes project := by
  rw [projectName?, firstOf_iff fun _ _ => nameIn?_eq_some_iff]

end ModelLint.ProjectSettings
