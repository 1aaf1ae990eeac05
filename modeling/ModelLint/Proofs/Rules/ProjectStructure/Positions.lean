import Mathlib.Algebra.GroupWithZero.Nat
import ModelLint.Proofs.Rules.Success
import ModelLint.Proofs.Text

namespace ModelLint.Rules.ProjectStructure

/-! The place of a file, judged by positions in its path.

The rule cuts a path at its anchor and asks for folders that may be missing. Here every
folder is looked up by its position instead, and a position with nothing behind it is an
error: the parts start at `anchor + 1`, the folder of the file is at `length - 2` among
them, and the text that is shown starts at `anchor - 1`. No position is out of range, and
the judgement is that of the rule. -/

open Text

/-- What a check that looks things up by position can trip over. -/
inductive Lapse where
  | missing (id : MissingId)
  | outOfRange (position length : Nat)

variable {α : Type} {items : List α}

def itemAt (items : List α) (position : Nat) : Except Lapse α :=
  match items[position]? with
  | some item => .ok item
  | none => .error (.outOfRange position items.length)

/-- The items from a position on. The end of the list counts as a position. -/
def itemsFrom (items : List α) (start : Nat) : Except Lapse (List α) :=
  if start ≤ items.length then .ok (items.drop start)
  else .error (.outOfRange start items.length)

/-- The first of some positions at which this name stands. -/
def firstOf (parts : List String) (name : String) : List Nat → Except Lapse (Option Nat)
  | [] => .ok none
  | position :: rest => do
      if sameIgnoringCase (← itemAt parts position) name then return some position
      else firstOf parts name rest

/-- Looks through the positions from `start` up to `stop`, or up to the end. -/
def seek (parts : List String) (name : String) (start stop : Nat) : Except Lapse (Option Nat) :=
  firstOf parts name (List.range' start (min stop parts.length - start))

theorem itemAt_eq_ok {position : Nat} {item : α} (found : items[position]? = some item) :
    itemAt items position = .ok item := by
  simp only [itemAt, found]

theorem itemsFrom_eq_ok {start : Nat} (inside : start ≤ items.length) :
    itemsFrom items start = .ok (items.drop start) :=
  if_pos inside

theorem firstOf_eq_ok {parts : List String} {name : String} {positions : List Nat}
    (inside : ∀ position ∈ positions, position < parts.length) :
    firstOf parts name positions = .ok (positions.find? fun position =>
      (parts[position]?).any fun part => sameIgnoringCase part name) := by
  induction positions with
  | nil => rfl
  | cons position rest ih =>
      have later := ih fun other member => inside other (List.mem_cons_of_mem _ member)
      obtain ⟨part, found⟩ : ∃ part, parts[position]? = some part :=
        ⟨_, List.getElem?_eq_getElem (inside position (by simp))⟩
      simp only [firstOf, itemAt_eq_ok found, bind, Except.bind, later, List.find?_cons, found,
        Option.any_some]
      cases sameIgnoringCase part name with
      | true => rfl
      | false => rfl

theorem seek_eq_ok (parts : List String) (name : String) (start stop : Nat) :
    seek parts name start stop = .ok (Path.position? parts name start stop) := by
  refine firstOf_eq_ok fun position member => ?_
  have bounds := List.mem_range'_1.mp member
  omega

def byteCount (text : List Char) : Nat :=
  (text.map Char.utf8Size).sum

/-- Cuts a text at a byte position, provided that a character starts there or the text
ends. -/
def cutAtByte? : (position : Nat) → List Char → Option (List Char × List Char)
  | 0, rest => some ([], rest)
  | _ + 1, [] => none
  | position + 1, c :: rest =>
      if c.utf8Size ≤ position + 1 then
        (cutAtByte? (position + 1 - c.utf8Size) rest).map fun (head, behind) => (c :: head, behind)
      else none

/-- The name that an affix gives a project, cut out behind the bytes of the organization. -/
def nameByBytes? (organization affix : String) : Option String := do
  let (head, rest) ← cutAtByte? (byteCount organization.toList) affix.toList
  let name := trim rest
  if sameIgnoringCase (String.ofList head) organization ∧ rest.head? = some ' ' ∧ name ≠ [] then
    some (String.ofList name)
  else none

theorem cutAtByte?_eq_some_iff {position : Nat} {text head rest : List Char} :
    cutAtByte? position text = some (head, rest) ↔
      text = head ++ rest ∧ byteCount head = position := by
  induction text generalizing position head with
  | nil =>
      cases position with
      | zero => cases head <;> simp [cutAtByte?, byteCount, eq_comm]
      | succ position => cases head <;> simp [cutAtByte?, byteCount]
  | cons c text ih =>
      cases position with
      | zero =>
          cases head with
          | nil => simp [cutAtByte?, byteCount, eq_comm]
          | cons d head =>
              have positive := Char.utf8Size_pos d
              simp only [cutAtByte?, byteCount, List.map_cons, List.sum_cons]
              constructor
              · simp
              · omega
      | succ position =>
          cases head with
          | nil => simp [cutAtByte?, byteCount]
          | cons d head =>
              simp only [cutAtByte?, Option.ite_none_right_eq_some, Option.map_eq_some_iff,
                Prod.exists, Prod.mk.injEq, List.cons.injEq, List.cons_append, byteCount,
                List.map_cons, List.sum_cons]
              constructor
              · rintro ⟨fits, inner, behind, cut, ⟨rfl, rfl⟩, rfl⟩
                obtain ⟨split, count⟩ := ih.mp cut
                rw [byteCount] at count
                exact ⟨⟨rfl, split⟩, by omega⟩
              · rintro ⟨⟨rfl, split⟩, count⟩
                refine ⟨by omega, head, rest, ih.mpr ⟨split, ?_⟩, ⟨rfl, rfl⟩, rfl⟩
                rw [byteCount]
                omega

theorem utf8Size_toLower (c : Char) : c.toLower.utf8Size = c.utf8Size := by
  delta Char.toLower
  split
  · rename_i isUpper
    have atMost : c.val.toNat ≤ 90 := UInt32.le_iff_toNat_le.mp isUpper.2
    have shifted : (c.val + ('a'.val - 'A'.val)).toNat = c.val.toNat + 32 := by
      rw [UInt32.toNat_add]
      change (c.val.toNat + 32) % 2 ^ 32 = _
      omega
    have small : c.val ≤ 127 := UInt32.le_iff_toNat_le.mpr (by change _ ≤ 127; omega)
    have smallShifted : c.val + ('a'.val - 'A'.val) ≤ 127 :=
      UInt32.le_iff_toNat_le.mpr (by rw [shifted]; change _ ≤ 127; omega)
    exact (if_pos smallShifted).trans (if_pos small).symm
  · rfl

theorem byteCount_of_sameIgnoringCase {left right : String} (same : sameIgnoringCase left right) :
    byteCount left.toList = byteCount right.toList := by
  have lowered : ∀ text : List Char, byteCount (text.map Char.toLower) = byteCount text := by
    intro text
    simp only [byteCount, List.map_map, Function.comp_def, utf8Size_toLower]
  rw [← lowered left.toList, beq_iff_eq.mp same, lowered]

theorem nameIn?_eq_nameByBytes? (organization affix : String) :
    ProjectSettings.nameIn? organization affix = nameByBytes? organization affix := by
  -- Both letter cases take one byte: a head that spells the organization ends with its bytes.
  have split := List.take_append_drop organization.toList.length affix.toList
  by_cases same : sameIgnoringCase
      (String.ofList (affix.toList.take organization.toList.length)) organization = true
  · have count := byteCount_of_sameIgnoringCase same
    rw [String.toList_ofList] at count
    have cut := cutAtByte?_eq_some_iff.mpr ⟨split.symm, count⟩
    simp only [ProjectSettings.nameIn?, nameByBytes?, cut, same, bind, Option.bind]
  · have nameless : ProjectSettings.nameIn? organization affix = none := by
      simp [ProjectSettings.nameIn?, same]
    rw [nameless, nameByBytes?]
    cases cut : cutAtByte? (byteCount organization.toList) affix.toList with
    | none => rfl
    | some ends =>
        obtain ⟨head, rest⟩ := ends
        obtain ⟨whole, _⟩ := cutAtByte?_eq_some_iff.mp cut
        have differs : ¬ sameIgnoringCase (String.ofList head) organization = true := by
          intro sameHead
          have size := length_of_sameIgnoringCase sameHead
          rw [String.toList_ofList] at size
          rw [whole, ← size, List.take_left] at same
          exact same sameHead
        simp [differs, bind, Option.bind]

/-- Whether the area and the feature are found by their positions. -/
def fitsByPosition (parts : List String) (parent : Nat) (area feature : Option String) :
    Except Lapse Bool := do
  let some area := area | return true
  let position ← seek parts area 0 parent
  let some feature := feature | return position.isSome
  let behind ← seek parts feature (position.elim 0 (· + 1)) parent
  return position.isSome && behind.isSome

/-- The arguments of the message about a file whose path has these segments. -/
def judgeByPosition (organization : String) (project : Option String)
    (names folders segments : List String) : Except Lapse (Option (List String)) := do
  let some anchor := segments.findIdx? (isOneOf anchors) | return none
  let parts ← itemsFrom segments (anchor + 1)
  if parts.head?.any (isOneOf toolFolders) then return none
  if parts.length < 2 then return none
  let parent := parts.length - 2
  let isIn := isOneOf folders (← itemAt parts parent)
  let fits ← fitsByPosition parts parent names[2]? names[3]?
  if isIn && 1 ≤ parent && fits && namesOwner names organization project then return none
  let anchorName ← itemAt segments anchor
  let folder ← itemAt folders 0
  let shown ← itemsFrom segments (anchor - 1)
  let placement : Placement := ⟨[], anchorName, parts⟩
  return some [placement.expected folder project names[2]? names[3]?, "/".intercalate shown]

theorem findIdx?_isAnchor (segments : List String) :
    segments.findIdx? (isOneOf anchors) = (cutAtAnchor? segments).map (·.lead.length) := by
  induction segments with
  | nil => rfl
  | cons segment rest ih =>
      rw [List.findIdx?_cons, cutAtAnchor?, ih]
      cases isOneOf anchors segment with
      | true => rfl
      | false => cases cutAtAnchor? rest <;> rfl

theorem cutAtAnchor?_eq_some {segments : List String} {placement : Placement}
    (cut : cutAtAnchor? segments = some placement) :
    segments = placement.lead ++ placement.anchor :: placement.parts := by
  induction segments generalizing placement with
  | nil => simp [cutAtAnchor?] at cut
  | cons segment rest ih =>
      rw [cutAtAnchor?] at cut
      split at cut
      · cases cut
        rfl
      · obtain ⟨inner, innerCut, rfl⟩ := Option.map_eq_some_iff.mp cut
        simp [ih innerCut]

theorem fitsByPosition_eq_ok (placement : Placement) (area feature : Option String) :
    fitsByPosition placement.parts placement.parentIndex area feature =
      .ok (placement.fitsNamespace area feature) := by
  cases area with
  | none => rfl
  | some area =>
      simp only [fitsByPosition, seek_eq_ok, Placement.fitsNamespace, bind, Except.bind, pure,
        Except.pure]
      cases Path.position? placement.parts area 0 placement.parentIndex with
      | none => cases feature <;> simp
      | some position => cases feature <;> simp

/-- From the folder above the anchor on, or from the anchor if it is the first folder. -/
theorem drop_lead (placement : Placement) :
    (placement.lead ++ placement.anchor :: placement.parts).drop (placement.lead.length - 1) =
      placement.lead.getLast?.toList ++ placement.anchor :: placement.parts := by
  rcases List.eq_nil_or_concat placement.lead with empty | ⟨above, last, split⟩
  · simp [empty]
  · simp [split]

/-- The positions around the anchor of a path are all in range. -/
theorem positions_of_cut {segments : List String} {placement : Placement}
    (cut : cutAtAnchor? segments = some placement) :
    itemsFrom segments (placement.lead.length + 1) = .ok placement.parts ∧
    itemAt segments placement.lead.length = .ok placement.anchor ∧
    itemsFrom segments (placement.lead.length - 1) =
      .ok (placement.lead.getLast?.toList ++ placement.anchor :: placement.parts) := by
  have whole := cutAtAnchor?_eq_some cut
  refine ⟨?_, itemAt_eq_ok (by simp [whole]), ?_⟩
  · rw [itemsFrom_eq_ok (by simp [whole]), whole]
    simp
  · have inside : placement.lead.length - 1 ≤ segments.length := by
      simp only [whole, List.length_append]
      omega
    rw [itemsFrom_eq_ok inside, whole, drop_lead]

theorem judgeByPosition_eq_ok (organization : String) (project : Option String)
    (names segments : List String) {folders : List String} (nonempty : folders ≠ []) :
    judgeByPosition organization project names folders segments = .ok (do
      let placement ← cutAtAnchor? segments
      if placement.isChecked then misplaced? organization project names placement folders
      else none) := by
  rw [judgeByPosition, findIdx?_isAnchor]
  cases cut : cutAtAnchor? segments with
  | none => rfl
  | some placement =>
      obtain ⟨below, anchorAt, above⟩ := positions_of_cut cut
      obtain ⟨folder, others, rfl⟩ := List.exists_cons_of_ne_nil nonempty
      have folderAt : itemAt (folder :: others) 0 = .ok folder := rfl
      simp only [Option.map_some, bind, Except.bind, below, Option.bind]
      by_cases tools : placement.parts.head?.any (isOneOf toolFolders) = true
      · simp [tools, Placement.isChecked, pure, Except.pure]
      · by_cases short : placement.parts.length < 2
        · have tooShort : ¬ 2 ≤ placement.parts.length := by omega
          simp [tools, short, Placement.isChecked, pure, Except.pure, tooShort]
        · have long : 2 ≤ placement.parts.length := by omega
          obtain ⟨parent, parentFound⟩ :
              ∃ parent, placement.parts[placement.parentIndex]? = some parent :=
            ⟨_, List.getElem?_eq_getElem (by rw [Placement.parentIndex]; omega)⟩
          have isChecked : placement.isChecked = true := by
            simp [Placement.isChecked, tools, long]
          have fits := fitsByPosition_eq_ok placement names[2]? names[3]?
          rw [Placement.parentIndex] at parentFound fits
          simp only [tools, short, itemAt_eq_ok parentFound, fits, isChecked, misplaced?,
            Placement.isIn, Placement.parentIndex, parentFound, anchorAt, folderAt, above,
            Option.any_some, Bool.false_eq_true, if_false, if_true]
          split
          · rename_i fine
            exact congrArg Except.ok (if_pos fine).symm
          · rename_i amiss
            exact congrArg Except.ok (if_neg amiss).symm

/-- The check, with every node, segment and folder looked up by position and the name of
the project cut out by bytes. -/
def checkByPosition (organization : String) (settings : SettingsSource) (context : Context)
    (id : NodeId) (kind : ObjectKind) : Except Lapse (List Finding) := do
  let model := context.model
  let folders := kindFolders (← (hasSubscriber model id).mapError .missing) kind
  if folders.isEmpty then return []
  let names ← (namespaceOf model).mapError .missing
  let project := (settings context.sourcePath).bind
    (·.affixes.findSome? (nameByBytes? organization))
  match ← judgeByPosition organization project names folders
      (Path.segments (Path.withSlashes model.filePath)) with
  | some args =>
      return [Model.findingInFile id (kind.label :: Path.fileName model.filePath :: args)]
  | none => return []

theorem checkByPosition_eq_ok {model : Model} (wellFormed : model.WellFormed)
    (organization : String) (settings : SettingsSource) (path : String) (cancelled : Bool)
    {id : NodeId} (inside : id < model.nodes.size) (kind : ObjectKind) :
    ∃ findings,
      checkByPosition organization settings ⟨model, path, cancelled⟩ id kind = .ok findings ∧
      check organization settings ⟨model, path, cancelled⟩ id kind = .ok findings := by
  obtain ⟨subscribes, asked⟩ := hasSubscriber_succeeds wellFormed inside
  obtain ⟨names, named⟩ := namespaceOf_succeeds wellFormed
  have projects : (fun found : ProjectSettings =>
      found.affixes.findSome? (nameByBytes? organization)) = (·.projectName? organization) := by
    funext found
    rw [ProjectSettings.projectName?, funext (nameIn?_eq_nameByBytes? organization)]
  have placed : placement? model.filePath =
      cutAtAnchor? (Path.segments (Path.withSlashes model.filePath)) := rfl
  simp only [checkByPosition, check, asked, named, Except.mapError, bind, Except.bind, placed,
    projects]
  generalize (settings path).bind (·.projectName? organization) = project
  by_cases unplaced : kindFolders subscribes kind = []
  · refine ⟨[], by simp [unplaced, pure, Except.pure], ?_⟩
    cases cutAtAnchor? (Path.segments (Path.withSlashes model.filePath)) with
    | none => rfl
    | some placement => cases placement.isChecked <;> simp [unplaced, pure, Except.pure]
  · have placeable : ¬ (kindFolders subscribes kind).isEmpty = true := by simpa using unplaced
    rw [judgeByPosition_eq_ok _ _ _ _ unplaced]
    simp only [placeable, if_false, Bool.false_eq_true]
    cases cutAtAnchor? (Path.segments (Path.withSlashes model.filePath)) with
    | none => exact ⟨[], rfl, rfl⟩
    | some placement =>
        cases checked : placement.isChecked with
        | false =>
            refine ⟨[], ?_, ?_⟩
            · simp [checked, pure, Except.pure]
            · simp [checked, pure, Except.pure]
        | true =>
            simp only [checked, Bool.not_true, Bool.false_eq_true, if_false, if_true, bind,
              Option.bind]
            cases misplaced? organization project names placement (kindFolders subscribes kind) with
            | none => exact ⟨[], rfl, rfl⟩
            | some args => exact ⟨_, rfl, rfl⟩

end ModelLint.Rules.ProjectStructure
