import ModelLint.Json.Reader
import ModelLint.Json.Record
import ModelLint.Text.Blank
import ModelLint.Text.Magnitude
import ModelLint.Workplace

namespace ModelLint

open ModelLint.Json (Value record?)
open ModelLint.Text

/-! Project settings.

The settings of a project lie in a directory above its sources. What the nearest
directory leaves open is taken from the ones further out. -/

structure ProjectSettings where
  /-- Affixes of the names in the project, such as `CIG Sales`. -/
  affixes : List String := []
  /-- Type of the project, such as `AppSource App`. -/
  type : Option String := none
deriving DecidableEq, Repr, Inhabited

namespace ProjectSettings

/-- Whether a number can be kept. -/
def isStorableNumber : Json.Number → Bool
  | .integer _ magnitude => !isTooLargeProduct magnitude 0
  | .decimal _ mantissa exponent => !isTooLargeProduct mantissa exponent

/-- Whether a value can be kept: no string in it is garbled, no number too large, and its
arrays and objects nest at most to the given depth. -/
def isStorable : (depth : Nat) → Value → Bool
  | _, .garbled => false
  | _, .number number => isStorableNumber number
  | depth + 1, .array items => items.all (isStorable depth)
  | depth + 1, .object fields => fields.all fun (_, value) => isStorable depth value
  | 0, .array _ | 0, .object _ => false
  | _, _ => true

/-- The depth to which the value of a setting may nest. -/
def nestingLimit : Nat := 126

/-- Reads a value of any kind. -/
def storable? (depth : Nat) (value : Value) : Option Value :=
  if isStorable depth value then some value else none

/-- Reads a settings file. Entries that are no strings are passed over. -/
def parse? (text : String) : Option ProjectSettings := do
  let fields ← record? ["appSourceCopMandatoryAffixes", "type"] (← Json.parse? text)
  let affixes ← fields.optional? "appSourceCopMandatoryAffixes" []
    (Value.listOf? (storable? (nestingLimit - 1)))
  let type ← fields.optional? "type" .null (storable? nestingLimit)
  return { affixes := affixes.filterMap Value.string?, type := type.string? }

/-- The name that an affix gives a project of the organization. -/
def nameIn? (organization affix : String) : Option String :=
  let size := organization.toList.length
  let head := String.ofList (affix.toList.take size)
  let rest := affix.toList.drop size
  let name := trim rest
  if sameIgnoringCase head organization ∧ rest.head? = some ' ' ∧ name ≠ [] then
    some (String.ofList name)
  else none

/-- The name of the project: the first affix that starts with the organization and
a blank gives it. -/
def projectName? (settings : ProjectSettings) (organization : String) : Option String :=
  settings.affixes.findSome? (nameIn? organization)

def isAppSource (settings : ProjectSettings) : Bool :=
  settings.type.any (sameIgnoringCase · "AppSource App")

/-- Takes what is still open from other settings. -/
def fillFrom (settings other : ProjectSettings) : ProjectSettings where
  affixes := if settings.affixes.isEmpty then other.affixes else settings.affixes
  type := settings.type.or other.type

/-- Whether nothing is open. -/
def isComplete (settings : ProjectSettings) : Bool :=
  !settings.affixes.isEmpty && settings.type.isSome

/-- The settings files of a directory, the first one first. -/
def fileNames : List String :=
  [".AL-Go/settings.json", ".github/AL-Go-Settings.json"]

/-- The settings in a directory, in order. Files that cannot be read are passed over. -/
def inDirectory (workplace : Workplace) (tree : FileTree) (directory : String) :
    List ProjectSettings :=
  fileNames.filterMap fun name => do
    parse? (← workplace.readText? tree (Path.join directory name))

/-- Fills what was found so far from some more settings. -/
def merge (found : Option ProjectSettings) (more : List ProjectSettings) :
    Option ProjectSettings :=
  more.foldl (fun found settings => some ((found.getD {}).fillFrom settings)) found

/-- Merges the settings of some directories, until nothing is open. -/
def collect (workplace : Workplace) (tree : FileTree) :
    (directories : List String) → (found : Option ProjectSettings) → Option ProjectSettings
  | [], found => found
  | directory :: rest, found =>
      let merged := merge found (inDirectory workplace tree directory)
      if merged.any isComplete then merged else collect workplace tree rest merged

end ProjectSettings

/-- Where a rule gets the settings for a source file from. -/
abbrev SettingsSource := String → Option ProjectSettings

namespace SettingsSource

/-- The settings found in the directories above the source file. Those above a relative path
are seen from the working directory, and end with it. -/
def seenFrom (workplace : Workplace) (tree : FileTree) : SettingsSource :=
  fun path => ProjectSettings.collect workplace tree (Path.ancestors path) none

/-- The settings that are found from the root of a tree. -/
def inTree (tree : FileTree) : SettingsSource :=
  seenFrom { workingDirectory := "/" } tree

/-- The same settings for every file. -/
def fixed (settings : Option ProjectSettings) : SettingsSource :=
  fun _ => settings

end SettingsSource

end ModelLint
