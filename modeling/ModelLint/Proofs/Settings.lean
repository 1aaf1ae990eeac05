import ModelLint.Proofs.Path
import ModelLint.Proofs.Settings.Content

namespace ModelLint

/-! Where the settings of a source file come from.

The walk over the directories fills what is open, file by file, and stops at a directory behind
which nothing is open. Complete settings stay as they are whatever they are filled from, so the
walk finds what it would find if it went on to the end: each part is that of the first file that
has it. -/

namespace ProjectSettings

/-- A file can be read, and its text spells settings. -/
def Holds (workplace : Workplace) (tree : FileTree) (file : String) (settings : ProjectSettings) :
    Prop :=
  ∃ text, workplace.readText? tree file = some text ∧ Spells text settings

def HoldsAffixes (workplace : Workplace) (tree : FileTree) (file : String)
    (affixes : List String) : Prop :=
  ∃ settings, Holds workplace tree file settings ∧ settings.affixes = affixes ∧ affixes ≠ []

def HoldsType (workplace : Workplace) (tree : FileTree) (file type : String) : Prop :=
  ∃ settings, Holds workplace tree file settings ∧ settings.type = some type

/-- The settings in a file that can be read and parsed. -/
def parsed? (workplace : Workplace) (tree : FileTree) (file : String) : Option ProjectSettings := do
  parse? (← workplace.readText? tree file)

/-- The affixes, if there are any. -/
def affixes? (settings : ProjectSettings) : Option (List String) :=
  if settings.affixes = [] then none else some settings.affixes

/-- The settings files that can apply to a source file, in the order in which they count. -/
def candidates (path : String) : List String :=
  (Path.ancestors path).flatMap fun directory =>
    [Path.join directory ".AL-Go/settings.json", Path.join directory ".github/AL-Go-Settings.json"]

variable {workplace : Workplace} {tree : FileTree} {file path : String}
  {settings : ProjectSettings} {more : List ProjectSettings}

theorem affixes_eq_getD (settings : ProjectSettings) :
    settings.affixes = settings.affixes?.getD [] := by
  by_cases empty : settings.affixes = [] <;> simp [affixes?, empty]

theorem affixes?_fillFrom (settings other : ProjectSettings) :
    (settings.fillFrom other).affixes? = settings.affixes?.or other.affixes? := by
  by_cases empty : settings.affixes = [] <;> simp [affixes?, fillFrom, empty]

theorem fillFrom_of_isComplete (complete : settings.isComplete = true) (other : ProjectSettings) :
    settings.fillFrom other = settings := by
  obtain ⟨affixes, type⟩ := settings
  cases affixes with
  | nil => simp [isComplete] at complete
  | cons first rest =>
      cases type with
      | none => simp [isComplete] at complete
      | some type => rfl

theorem merge_cons (found : Option ProjectSettings) (first : ProjectSettings)
    (rest : List ProjectSettings) :
    merge found (first :: rest) = merge (some ((found.getD {}).fillFrom first)) rest := rfl

theorem merge_append (found : Option ProjectSettings) (left right : List ProjectSettings) :
    merge found (left ++ right) = merge (merge found left) right :=
  List.foldl_append

theorem merge_of_isComplete (complete : settings.isComplete = true) :
    merge (some settings) more = some settings := by
  induction more with
  | nil => rfl
  | cons first rest ih =>
      rw [merge_cons, Option.getD_some, fillFrom_of_isComplete complete, ih]

/-- Where the walk stops does not change what it finds. -/
theorem collect_eq_merge (directories : List String) (found : Option ProjectSettings) :
    collect workplace tree directories found =
      merge found (directories.flatMap (inDirectory workplace tree)) := by
  induction directories generalizing found with
  | nil => rfl
  | cons directory rest ih =>
      rw [List.flatMap_cons, merge_append, collect]
      cases merged : merge found (inDirectory workplace tree directory) with
      | none => simpa [merged] using ih none
      | some settings =>
          by_cases complete : settings.isComplete = true
          · simp [complete, merge_of_isComplete complete]
          · simpa [complete] using ih (some settings)

theorem inDirectory_eq (directory : String) :
    inDirectory workplace tree directory =
      [Path.join directory ".AL-Go/settings.json",
        Path.join directory ".github/AL-Go-Settings.json"].filterMap (parsed? workplace tree) := by
  simp only [inDirectory, fileNames, parsed?, List.filterMap_cons, List.filterMap_nil]

theorem seenFrom_eq_merge :
    SettingsSource.seenFrom workplace tree path =
      merge none ((candidates path).filterMap (parsed? workplace tree)) := by
  rw [SettingsSource.seenFrom, collect_eq_merge, candidates, List.filterMap_flatMap,
    funext inDirectory_eq]

theorem findSome?_cons_eq_or {α β : Type} (find : α → Option β) (first : α) (rest : List α) :
    (first :: rest).findSome? find = (find first).or (rest.findSome? find) := by
  cases here : find first <;> simp [here]

theorem merge_some_parts (settings : ProjectSettings) (more : List ProjectSettings) :
    ∃ merged, merge (some settings) more = some merged ∧
      merged.affixes? = settings.affixes?.or (more.findSome? affixes?) ∧
      merged.type = settings.type.or (more.findSome? type) := by
  induction more generalizing settings with
  | nil => exact ⟨settings, rfl, by simp, by simp⟩
  | cons first rest ih =>
      obtain ⟨merged, found, affixes, type⟩ := ih (settings.fillFrom first)
      refine ⟨merged, found, ?_, ?_⟩
      · rw [affixes, affixes?_fillFrom, findSome?_cons_eq_or, Option.or_assoc]
      · rw [type, fillFrom, findSome?_cons_eq_or, Option.or_assoc]

theorem merge_parts (nonempty : more ≠ []) :
    ∃ merged, merge none more = some merged ∧ merged.affixes? = more.findSome? affixes? ∧
      merged.type = more.findSome? type := by
  cases more with
  | nil => contradiction
  | cons first rest =>
      obtain ⟨merged, found, affixes, type⟩ := merge_some_parts (fillFrom {} first) rest
      refine ⟨merged, found, ?_, ?_⟩
      · rw [affixes, affixes?_fillFrom, findSome?_cons_eq_or]
        rfl
      · rw [type, fillFrom, findSome?_cons_eq_or]
        rfl

theorem findSome?_parsed {α : Type} (files : List String) (part : ProjectSettings → Option α) :
    (files.filterMap (parsed? workplace tree)).findSome? part =
      files.findSome? fun file => (parsed? workplace tree file).bind part := by
  rw [← List.head?_filterMap, List.filterMap_filterMap, List.head?_filterMap]

theorem parsed?_eq_some_iff :
    parsed? workplace tree file = some settings ↔ Holds workplace tree file settings := by
  simp only [parsed?, bind, Option.bind_eq_some_iff, parse?_eq_some_iff, Holds]

theorem holdsAffixes_iff {affixes : List String} :
    (parsed? workplace tree file).bind affixes? = some affixes ↔
      HoldsAffixes workplace tree file affixes := by
  simp only [Option.bind_eq_some_iff, parsed?_eq_some_iff, affixes?, HoldsAffixes,
    Option.ite_none_left_eq_some, Option.some.injEq]
  refine exists_congr fun settings => and_congr_right fun _ => ?_
  constructor
  · rintro ⟨given, rfl⟩
    exact ⟨rfl, given⟩
  · rintro ⟨rfl, given⟩
    exact ⟨given, rfl⟩

theorem holdsType_iff {kind : String} :
    (parsed? workplace tree file).bind type = some kind ↔ HoldsType workplace tree file kind := by
  simp only [Option.bind_eq_some_iff, parsed?_eq_some_iff, HoldsType]

/-- Either no file for a source file holds settings, or those that are found have the first
parts. -/
theorem seenFrom_cases (workplace : Workplace) (tree : FileTree) (path : String) :
    ((∀ file ∈ candidates path, ∀ settings, ¬ Holds workplace tree file settings) ∧
      SettingsSource.seenFrom workplace tree path = none) ∨
    (∃ file ∈ candidates path, ∃ settings, Holds workplace tree file settings) ∧
      ∃ merged affixes, SettingsSource.seenFrom workplace tree path = some merged ∧
        FirstOf (HoldsAffixes workplace tree) (candidates path) affixes ∧
        merged.affixes = affixes.getD [] ∧
        FirstOf (HoldsType workplace tree) (candidates path) merged.type := by
  rw [seenFrom_eq_merge]
  rcases eq_or_ne ((candidates path).filterMap (parsed? workplace tree)) [] with none | nonempty
  · left
    refine ⟨fun file listed settings holds => ?_, by rw [none]; rfl⟩
    have unparsed := List.filterMap_eq_nil_iff.mp none file listed
    rw [parsed?_eq_some_iff.mpr holds] at unparsed
    cases unparsed
  · right
    obtain ⟨merged, found, affixes, type⟩ := merge_parts nonempty
    obtain ⟨first, member⟩ := List.exists_mem_of_ne_nil _ nonempty
    obtain ⟨file, listed, given⟩ := List.mem_filterMap.mp member
    refine ⟨⟨file, listed, first, parsed?_eq_some_iff.mp given⟩, merged, merged.affixes?, found,
      ?_, affixes_eq_getD merged, ?_⟩
    · rw [affixes, findSome?_parsed]
      exact (firstOf_iff fun _ _ => holdsAffixes_iff).mpr rfl
    · rw [type, findSome?_parsed]
      exact (firstOf_iff fun _ _ => holdsType_iff).mpr rfl

/-- There are settings for a source file exactly if one of the files for it holds settings. Their
affixes are those of the first such file that has any, and their type is that of the first such
file that has one. The files are looked for in the directories around the source file, nearest
first, and going through all of them would find the same. -/
theorem seenFrom_takes_first (workplace : Workplace) (tree : FileTree) (path : String) :
    (Path.ancestors path).map Path.components =
      ((Path.components path).inits.drop (if Path.isAbsolute path then 1 else 0)).dropLast.reverse ∧
    (SettingsSource.seenFrom workplace tree path = none ↔
      ∀ file ∈ candidates path, ∀ settings, ¬ Holds workplace tree file settings) ∧
    (∀ settings, SettingsSource.seenFrom workplace tree path = some settings ↔
      (∃ file ∈ candidates path, ∃ found, Holds workplace tree file found) ∧
      (∃ affixes, FirstOf (HoldsAffixes workplace tree) (candidates path) affixes ∧
        settings.affixes = affixes.getD []) ∧
      FirstOf (HoldsType workplace tree) (candidates path) settings.type) ∧
    SettingsSource.seenFrom workplace tree path =
      merge none ((candidates path).filterMap (parsed? workplace tree)) := by
  refine ⟨Path.components_ancestors path, ?_, ?_, seenFrom_eq_merge⟩
  · rcases seenFrom_cases workplace tree path with ⟨nowhere, nothing⟩ | ⟨holds, merged, _, found, _⟩
    · exact iff_of_true nothing nowhere
    · obtain ⟨file, listed, settings, holds⟩ := holds
      exact iff_of_false (by simp [found]) fun nowhere => nowhere file listed settings holds
  · intro settings
    rcases seenFrom_cases workplace tree path with
      ⟨nowhere, nothing⟩ | ⟨holds, merged, affixes, found, firstAffixes, sameAffixes, firstType⟩
    · refine iff_of_false (by simp [nothing]) fun given => ?_
      obtain ⟨⟨file, listed, settings, holds⟩, _⟩ := given
      exact nowhere file listed settings holds
    · rw [found, Option.some.injEq]
      constructor
      · rintro rfl
        exact ⟨holds, ⟨affixes, firstAffixes, sameAffixes⟩, firstType⟩
      · rintro ⟨_, ⟨others, alsoAffixes, alsoSame⟩, alsoType⟩
        obtain ⟨own, type⟩ := settings
        obtain rfl : others = affixes :=
          alsoAffixes.unique (fun _ _ => holdsAffixes_iff) firstAffixes
        obtain rfl : own = merged.affixes := alsoSame.trans sameAffixes.symm
        obtain rfl : type = merged.type := alsoType.unique (fun _ _ => holdsType_iff) firstType
        rfl

/-- A file with affixes, only some of them texts, below one that is no text and one with a type. -/
def sales : FileTree where
  files := [
    (["work", "sales", "App", ".AL-Go", "settings.json"], "\x7b not json".toUTF8),
    (["work", "sales", ".AL-Go", "settings.json"],
      "\x7b\"type\": 7, \"appSourceCopMandatoryAffixes\": [3, \"CIG Sales\"]\x7d".toUTF8),
    (["work", ".AL-Go", "settings.json"], ⟨#[0xff]⟩),
    (["work", ".github", "AL-Go-Settings.json"], "[[\"CIG Work\"], \"PTE\"]".toUTF8)]

/-- Seen from the folder with the affixes, a relative path leaves the type open that stands above
that folder, while an absolute path finds it. -/
theorem seenFrom_takes_first_sales :
    SettingsSource.seenFrom { workingDirectory := "/work/sales" } sales "App/Foo.al" =
        some { affixes := ["CIG Sales"] } ∧
      FirstOf (HoldsType { workingDirectory := "/work/sales" } sales)
        (candidates "App/Foo.al") none ∧
    SettingsSource.seenFrom { workingDirectory := "/work/sales" } sales "/work/sales/App/Foo.al" =
        some { affixes := ["CIG Sales"], type := some "PTE" } ∧
      FirstOf (HoldsAffixes { workingDirectory := "/work/sales" } sales)
        (candidates "/work/sales/App/Foo.al") (some ["CIG Sales"]) ∧
      FirstOf (HoldsType { workingDirectory := "/work/sales" } sales)
        (candidates "/work/sales/App/Foo.al") (some "PTE") := by
  have near : SettingsSource.seenFrom { workingDirectory := "/work/sales" } sales "App/Foo.al" =
      some { affixes := ["CIG Sales"] } := by
    decide +kernel
  have far : SettingsSource.seenFrom { workingDirectory := "/work/sales" } sales
      "/work/sales/App/Foo.al" = some { affixes := ["CIG Sales"], type := some "PTE" } := by
    decide +kernel
  obtain ⟨_, _, relative, _⟩ :=
    seenFrom_takes_first { workingDirectory := "/work/sales" } sales "App/Foo.al"
  obtain ⟨_, _, absolute, _⟩ :=
    seenFrom_takes_first { workingDirectory := "/work/sales" } sales "/work/sales/App/Foo.al"
  obtain ⟨_, _, noType⟩ := (relative _).mp near
  obtain ⟨_, ⟨affixes, firstAffixes, same⟩, firstType⟩ := (absolute _).mp far
  obtain ⟨_, rfl⟩ : ∃ given, affixes = some given := by
    cases affixes with
    | none => cases same
    | some given => exact ⟨given, rfl⟩
  obtain rfl := same
  exact ⟨near, noType, far, firstAffixes, firstType⟩

end ProjectSettings

end ModelLint
