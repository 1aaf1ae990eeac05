import ModelLint.Proofs.Model.Traversal
import ModelLint.Proofs.Path
import ModelLint.Proofs.Rules.ProjectStructure.Positions
import ModelLint.Proofs.Settings.Content

namespace ModelLint

/-! Where a file has to lie for nothing to be reported.

The rule goes by the first anchor of a path and takes the first folder with the name of the area
and then any folder with the name of the feature behind it. What it accepts is said here without
positions: the folders between the anchor and the folder of the file hold the area, and the area
before the feature. -/

open Text Fallible

namespace Path

variable {segments : List String} {name : String} {start stop index : Nat}

theorem isSome_position?_iff :
    (position? segments name start stop).isSome = true ↔
      ∃ segment ∈ (segments.take stop).drop start, sameIgnoringCase segment name = true := by
  simp only [position?, List.find?_isSome, List.mem_range'_1, Option.any_eq_true]
  constructor
  · intro given
    obtain ⟨position, bounds, segment, found, same⟩ := given
    refine ⟨segment, List.mem_iff_getElem?.mpr ⟨position - start, ?_⟩, same⟩
    rw [List.getElem?_drop, List.getElem?_take_of_lt (by omega), Nat.add_sub_cancel' bounds.1,
      found]
  · intro given
    obtain ⟨segment, member, same⟩ := given
    obtain ⟨offset, found⟩ := List.mem_iff_getElem?.mp member
    rw [List.getElem?_drop] at found
    have bound := (List.getElem?_eq_some_iff.mp found).1
    rw [List.length_take] at bound
    rw [List.getElem?_take_of_lt (by omega)] at found
    exact ⟨start + offset, by omega, segment, found, same⟩

/-- The position found from the start on splits the segments at the first one with the name. -/
theorem position?_eq_some (found : position? segments name 0 stop = some index) :
    ∃ before segment after, segments.take stop = before ++ segment :: after ∧
      before.length = index ∧ sameIgnoringCase segment name = true ∧
      ∀ earlier ∈ before, sameIgnoringCase earlier name = false := by
  obtain ⟨here, inRange, refused⟩ := List.find?_range'_eq_some.mp found
  obtain ⟨segment, segmentAt, same⟩ := (Option.any_eq_true _ _).mp here
  have bounds := List.mem_range'_1.mp inRange
  have taken : (segments.take stop)[index]? = some segment := by
    rw [List.getElem?_take_of_lt (by omega), segmentAt]
  obtain ⟨inside, rfl⟩ := List.getElem?_eq_some_iff.mp taken
  refine ⟨(segments.take stop).take index, _, (segments.take stop).drop (index + 1), ?_, ?_, same,
    ?_⟩
  · rw [List.getElem_cons_drop, List.take_append_drop]
  · rw [List.length_take]
    omega
  · intro earlier member
    obtain ⟨position, listedAt⟩ := List.mem_iff_getElem?.mp member
    have before := (List.getElem?_eq_some_iff.mp listedAt).1
    rw [List.length_take] at before
    rw [List.getElem?_take_of_lt (by omega), List.getElem?_take_of_lt (by omega)] at listedAt
    simpa [listedAt] using refused position (by omega) (by omega)

end Path

namespace Rules.ProjectStructure

/-- A segment has one of some names, in any letter case. -/
def Among (names : List String) (segment : String) : Prop :=
  ∃ name ∈ names, sameIgnoringCase segment name = true

/-- The folders for the kinds of objects other than codeunits. -/
def housing : List (ObjectKind × String) :=
  [(.table, "Table"), (.tableExtension, "TableExt"), (.tableExtension, "TableExtension"),
    (.page, "Page"), (.pageExtension, "PageExt"), (.pageExtension, "PageExtension"),
    (.pageCustomization, "PageCustomization"), (.report, "Report"),
    (.reportExtension, "ReportExtension"), (.reportExtension, "ReportExt"), (.query, "Query"),
    (.xmlPort, "XmlPort"), (.controlAddIn, "ControlAddIn"), (.profile, "Profile"),
    (.profileExtension, "ProfileExtension"), (.interface, "Interface"), (.enum, "Enum"),
    (.enumExtension, "EnumExtension"), (.enumExtension, "EnumExt")]

/-- Objects of a kind lie in a folder. -/
inductive Houses (subscribes : Prop) : ObjectKind → String → Prop where
  | subscriber (given : subscribes) : Houses subscribes .codeunit "EventSub"
  | codeunit (plain : ¬ subscribes) : Houses subscribes .codeunit "Codeunit"
  | listed {kind : ObjectKind} {folder : String} (member : (kind, folder) ∈ housing) :
      Houses subscribes kind folder

/-- A file lies where its namespace and kind say. Its folder is `parent`, and `between` are the
folders between the anchor and that one. -/
structure WellPlaced (organization : String) (project : Option String) (names : List String)
    (houses : String → Prop) (between : List String) (parent : String) : Prop where
  kind : ∃ folder, houses folder ∧ sameIgnoringCase parent folder = true
  deep : between ≠ []
  area : ∀ area, names[2]? = some area → ∃ folder ∈ between, sameIgnoringCase folder area = true
  feature : ∀ area, names[2]? = some area → ∀ feature, names[3]? = some feature →
    ∃ first second, [first, second].Sublist between ∧ sameIgnoringCase first area = true ∧
      sameIgnoringCase second feature = true
  organization : ∀ name, names[0]? = some name → sameIgnoringCase name organization = true
  project : ∀ name, names[1]? = some name → ∀ known, project = some known →
    sameIgnoringCase name known = true

/-- Below an object there is an attribute that makes an event subscriber. -/
def Subscribes (model : Model) (object : NodeId) : Prop :=
  ∃ id node, model.Encloses object id ∧ model.nodes[id]? = some node ∧
    node.kind = .attributeUse ∧ Mentions node.name "EventSubscriber"

def isNamespace (node : Node) : Bool :=
  node.kind = .namespaceDeclaration

/-- The names between the dots of the first namespace that a walk through a model meets, if it
meets one. -/
inductive FirstNamespace (model : Model) : List String → Prop where
  | absent (none : ∀ id, model.Has isNamespace id = false) : FirstNamespace model []
  | declared {before after : List NodeId} {id : NodeId} {node : Node} {names : List String}
      (walked : model.walk = .ok (before ++ id :: after))
      (first : ∀ earlier ∈ before, model.Has isNamespace earlier = false)
      (found : model.nodes[id]? = some node) (isOne : isNamespace node = true)
      (named : NamesIn '.' node.name.toList names) : FirstNamespace model names

/-- The segments of a path that the rule has nothing to say about. -/
inductive Passes (organization : String) (project : Option String) (names : List String)
    (houses : String → Prop) : List String → Prop where
  | unanchored {segments : List String}
      (free : ∀ segment ∈ segments, ¬ Among ["App", "Test"] segment) :
      Passes organization project names houses segments
  | tool {lead rest : List String} {anchor first : String}
      (free : ∀ segment ∈ lead, ¬ Among ["App", "Test"] segment)
      (isAnchor : Among ["App", "Test"] anchor)
      (isTool : Among [".vscode", ".alpackages", ".altestrunner", ".snapshots", "Translations"]
        first) :
      Passes organization project names houses (lead ++ anchor :: first :: rest)
  | short {lead parts : List String} {anchor : String}
      (free : ∀ segment ∈ lead, ¬ Among ["App", "Test"] segment)
      (isAnchor : Among ["App", "Test"] anchor) (few : parts.length < 2) :
      Passes organization project names houses (lead ++ anchor :: parts)
  | placed {lead between : List String} {anchor parent file : String}
      (free : ∀ segment ∈ lead, ¬ Among ["App", "Test"] segment)
      (isAnchor : Among ["App", "Test"] anchor)
      (wellPlaced : WellPlaced organization project names houses between parent) :
      Passes organization project names houses (lead ++ anchor :: (between ++ [parent, file]))

variable {model : Model} {id : NodeId} {organization : String} {project : Option String}
  {names folders segments : List String} {placement : Placement}

theorem mem_kindFolders_iff {kind : ObjectKind} {subscribes : Bool} {folder : String} :
    folder ∈ kindFolders subscribes kind ↔ Houses (subscribes = true) kind folder := by
  constructor
  · intro member
    cases kind with
    | codeunit =>
        cases subscribes with
        | true =>
            obtain rfl : folder = "EventSub" := by simpa [kindFolders] using member
            exact .subscriber rfl
        | false =>
            obtain rfl : folder = "Codeunit" := by simpa [kindFolders] using member
            exact .codeunit Bool.false_ne_true
    | permissionSet => contradiction
    | _ => exact .listed (by simpa [kindFolders, housing, ObjectKind.label] using member)
  · intro housed
    cases housed with
    | subscriber given => simp [kindFolders, given]
    | codeunit plain => simp [kindFolders, plain]
    | listed member =>
        cases kind with
        | codeunit | permissionSet => simp [housing] at member
        | _ => simpa [kindFolders, housing, ObjectKind.label] using member

theorem isOneOf_iff {segment : String} : isOneOf names segment = true ↔ Among names segment := by
  simp only [isOneOf, List.any_eq_true, Among]

theorem cutAtAnchor?_eq_none_iff :
    cutAtAnchor? segments = none ↔ ∀ segment ∈ segments, ¬ Among ["App", "Test"] segment := by
  induction segments with
  | nil => simp [cutAtAnchor?]
  | cons segment rest ih =>
      have isAnchor : isOneOf anchors segment = true ↔ Among ["App", "Test"] segment := isOneOf_iff
      rw [cutAtAnchor?, List.forall_mem_cons, ← ih, ← isAnchor]
      cases isOneOf anchors segment <;> simp

theorem cutAtAnchor?_append {lead parts : List String} {anchor : String}
    (free : ∀ segment ∈ lead, ¬ Among ["App", "Test"] segment)
    (isAnchor : Among ["App", "Test"] anchor) :
    cutAtAnchor? (lead ++ anchor :: parts) = some ⟨lead, anchor, parts⟩ := by
  induction lead with
  | nil => exact if_pos (isOneOf_iff.mpr isAnchor)
  | cons segment lead ih =>
      obtain ⟨here, later⟩ := List.forall_mem_cons.mp free
      have passed : ¬ isOneOf anchors segment = true := fun isOne => here (isOneOf_iff.mp isOne)
      rw [List.cons_append, cutAtAnchor?, if_neg passed, ih later]
      rfl

theorem anchored_of_cutAtAnchor? (cut : cutAtAnchor? segments = some placement) :
    (∀ segment ∈ placement.lead, ¬ Among ["App", "Test"] segment) ∧
      Among ["App", "Test"] placement.anchor := by
  induction segments generalizing placement with
  | nil => simp [cutAtAnchor?] at cut
  | cons segment rest ih =>
      rw [cutAtAnchor?] at cut
      split at cut
      · rename_i isAnchor
        cases cut
        exact ⟨by simp, isOneOf_iff.mp isAnchor⟩
      · rename_i passed
        obtain ⟨inner, innerCut, rfl⟩ := Option.map_eq_some_iff.mp cut
        obtain ⟨free, isAnchor⟩ := ih innerCut
        refine ⟨List.forall_mem_cons.mpr ⟨fun among => ?_, free⟩, isAnchor⟩
        exact passed (isOneOf_iff.mpr among)

/-- The first folder of the area serves as well as any other: what follows some folder of the
area follows the first one. -/
theorem exists_pair_iff {before after : List String} {here : String}
    {isArea isFeature : String → Prop} (areaHere : isArea here)
    (first : ∀ earlier ∈ before, ¬ isArea earlier) :
    (∃ area feature, [area, feature].Sublist (before ++ here :: after) ∧ isArea area ∧
      isFeature feature) ↔ ∃ feature ∈ after, isFeature feature := by
  constructor
  · rintro ⟨area, feature, sublist, isArea, isFeature⟩
    obtain ⟨front, back, split, inBefore, inRest⟩ := List.sublist_append_iff.mp sublist
    cases front with
    | nil =>
        obtain rfl : [area, feature] = back := split
        exact ⟨feature, inRest.tail.subset (by simp), isFeature⟩
    | cons earlier others =>
        obtain ⟨rfl, _⟩ := List.cons.inj split
        exact absurd isArea (first area (inBefore.subset (by simp)))
  · rintro ⟨feature, member, isFeature⟩
    have behind : [here, feature].Sublist (here :: after) :=
      (List.singleton_sublist.mpr member).cons_cons here
    exact ⟨here, feature, behind.trans (List.sublist_append_right _ _), areaHere, isFeature⟩

section

variable {between : List String} {parent file : String}

theorem take_parentIndex (split : placement.parts = between ++ [parent, file]) :
    placement.parts.take placement.parentIndex = between := by
  simp [Placement.parentIndex, split]

theorem fitsNamespace_iff (split : placement.parts = between ++ [parent, file])
    {area feature : Option String} :
    placement.fitsNamespace area feature = true ↔
      (∀ name, area = some name → ∃ folder ∈ between, sameIgnoringCase folder name = true) ∧
      ∀ name, area = some name → ∀ inner, feature = some inner →
        ∃ first second, [first, second].Sublist between ∧ sameIgnoringCase first name = true ∧
          sameIgnoringCase second inner = true := by
  cases area with
  | none => simp [Placement.fitsNamespace]
  | some name =>
      rw [Placement.fitsNamespace]
      cases found : Path.position? placement.parts name 0 placement.parentIndex with
      | none =>
          have missing : ¬ ∃ folder ∈ between, sameIgnoringCase folder name = true := by
            have unfound :=
              Path.isSome_position?_iff.not.mp (Option.not_isSome_iff_eq_none.mpr found)
            rwa [take_parentIndex split, List.drop_zero] at unfound
          simp only [Bool.false_eq_true, false_iff]
          exact fun given => missing (given.1 name rfl)
      | some index =>
          obtain ⟨before, here, after, cut, rfl, same, earlier⟩ := Path.position?_eq_some found
          rw [take_parentIndex split] at cut
          have areaThere : ∃ folder ∈ between, sameIgnoringCase folder name = true :=
            ⟨here, by simp [cut], same⟩
          cases feature with
          | none => simpa using areaThere
          | some inner =>
              have behind : (∃ first second, [first, second].Sublist (before ++ here :: after) ∧
                  sameIgnoringCase first name = true ∧ sameIgnoringCase second inner = true) ↔
                  ∃ folder ∈ after, sameIgnoringCase folder inner = true := by
                apply exists_pair_iff same
                intro folder member
                simp [earlier folder member]
              have rest : (placement.parts.take placement.parentIndex).drop (before.length + 1) =
                  after := by
                simp [take_parentIndex split, cut]
              rw [cut] at areaThere
              simp only [Option.all_some, Path.isSome_position?_iff, rest, cut, Option.some.injEq,
                forall_eq', areaThere, behind, true_and]

theorem namesOwner_iff :
    namesOwner names organization project = true ↔
      (∀ name, names[0]? = some name → sameIgnoringCase name organization = true) ∧
      ∀ name, names[1]? = some name → ∀ known, project = some known →
        sameIgnoringCase name known = true := by
  unfold namesOwner
  rw [Bool.and_eq_true, List.head?_eq_getElem?]
  refine and_congr ?_ ?_
  · cases names[0]? <;> simp
  · cases names[1]? <;> cases project <;> simp

/-- Nothing is said about a file exactly if it is well placed. -/
theorem misplaced?_eq_none_iff (split : placement.parts = between ++ [parent, file]) :
    misplaced? organization project names placement folders = none ↔
      WellPlaced organization project names (· ∈ folders) between parent := by
  have isIn : placement.isIn folders = isOneOf folders parent := by
    simp [Placement.isIn, Placement.parentIndex, split]
  have deep : 1 ≤ placement.parentIndex ↔ between ≠ [] := by
    simp [Placement.parentIndex, split, Nat.one_le_iff_ne_zero]
  rw [misplaced?]
  simp only [ite_eq_left_iff, reduceCtorEq, imp_false, not_not, Bool.and_eq_true, isIn,
    isOneOf_iff, decide_eq_true_eq, deep, fitsNamespace_iff split, namesOwner_iff]
  constructor
  · rintro ⟨⟨⟨kind, deep⟩, area, feature⟩, organization, project⟩
    exact ⟨kind, deep, area, feature, organization, project⟩
  · rintro ⟨kind, deep, area, feature, organization, project⟩
    exact ⟨⟨⟨kind, deep⟩, area, feature⟩, organization, project⟩

end

/-- The arguments of the message about a file whose path has these segments. -/
def complaint? (organization : String) (project : Option String)
    (names folders segments : List String) : Option (List String) :=
  (cutAtAnchor? segments).bind fun placement =>
    if placement.isChecked then misplaced? organization project names placement folders else none

theorem isChecked_iff :
    placement.isChecked = true ↔
      (∀ first, placement.parts.head? = some first → ¬ Among toolFolders first) ∧
        2 ≤ placement.parts.length := by
  rw [Placement.isChecked, Bool.and_eq_true, decide_eq_true_eq, Bool.not_eq_true',
    Option.any_eq_false]
  simp only [← isOneOf_iff, Bool.not_eq_true]

theorem exists_between (long : 2 ≤ placement.parts.length) :
    ∃ between parent file, placement.parts = between ++ [parent, file] := by
  rcases List.eq_nil_or_concat placement.parts with empty | ⟨front, file, split⟩
  · simp [empty] at long
  · rcases List.eq_nil_or_concat front with empty | ⟨between, parent, inner⟩
    · simp [split, empty] at long
    · exact ⟨between, parent, file, by simp [split, inner]⟩

theorem complaint?_eq_none_iff :
    complaint? organization project names folders segments = none ↔
      Passes organization project names (· ∈ folders) segments := by
  constructor
  · intro silent
    cases cut : cutAtAnchor? segments with
    | none => exact .unanchored (cutAtAnchor?_eq_none_iff.mp cut)
    | some placement =>
        obtain ⟨free, isAnchor⟩ := anchored_of_cutAtAnchor? cut
        rw [cutAtAnchor?_eq_some cut]
        by_cases long : 2 ≤ placement.parts.length
        · obtain ⟨between, parent, file, split⟩ := exists_between long
          rw [complaint?, cut, Option.bind_some] at silent
          split at silent
          · rw [misplaced?_eq_none_iff split] at silent
            rw [split]
            exact .placed free isAnchor silent
          · rename_i unchecked
            simp only [isChecked_iff, long, and_true, not_forall, not_not] at unchecked
            obtain ⟨first, isFirst, isTool⟩ := unchecked
            rw [List.head?_eq_some_iff] at isFirst
            obtain ⟨rest, split⟩ := isFirst
            rw [split]
            exact .tool free isAnchor isTool
        · exact .short free isAnchor (by omega)
  · intro passes
    cases passes with
    | unanchored free => simp [complaint?, cutAtAnchor?_eq_none_iff.mpr free]
    | @tool lead rest anchor first free isAnchor isTool =>
        have unchecked : ¬ (⟨lead, anchor, first :: rest⟩ : Placement).isChecked = true :=
          fun checked => (isChecked_iff.mp checked).1 first rfl isTool
        rw [complaint?, cutAtAnchor?_append free isAnchor, Option.bind_some, if_neg unchecked]
    | @short lead parts anchor free isAnchor few =>
        have unchecked : ¬ (⟨lead, anchor, parts⟩ : Placement).isChecked = true :=
          fun checked => Nat.not_le_of_lt few (isChecked_iff.mp checked).2
        rw [complaint?, cutAtAnchor?_append free isAnchor, Option.bind_some, if_neg unchecked]
    | placed free isAnchor wellPlaced =>
        rw [complaint?, cutAtAnchor?_append free isAnchor, Option.bind_some,
          (misplaced?_eq_none_iff rfl).mpr wellPlaced, ite_self]

theorem marksSubscriber_iff {node : Node} :
    marksSubscriber node = true ↔
      node.kind = .attributeUse ∧ Mentions node.name "EventSubscriber" := by
  have word : "eventsubscriber".toList = (lower "EventSubscriber").toList := by decide
  rw [marksSubscriber, Bool.and_eq_true, decide_eq_true_eq, word, mentions_iff]

theorem hasSubscriber_decides (wellFormed : model.WellFormed) (inside : id < model.nodes.size) :
    Decides (hasSubscriber model id) (Subscribes model id) := by
  obtain ⟨below, found, belowInside⟩ := Model.descendants_inside wellFormed inside
  have answered :
      hasSubscriber model id = .ok (below.find? (model.Has marksSubscriber)).isSome := by
    simp only [hasSubscriber, found, Model.findNode_eq_ok belowInside, bind, Except.bind, pure,
      Except.pure]
  refine ⟨_, answered, ?_⟩
  simp only [List.find?_isSome, wellFormed.mem_descendants_iff inside found, Subscribes,
    Model.has_iff, marksSubscriber_iff, exists_and_left]

theorem namespaceOf_eq_ok_iff (wellFormed : model.WellFormed) :
    namespaceOf model = .ok names ↔ FirstNamespace model names := by
  obtain ⟨tree, isTree⟩ := wellFormed.isTree
  have walked := wellFormed.walk_eq_ok isTree
  have searched : model.findFirst .namespaceDeclaration =
      .ok (tree.preorder.find? (model.Has isNamespace)) := by
    simp only [Model.findFirst, walked, bind, Except.bind]
    exact Model.findNode_eq_ok fun id member => (isTree.2.2.2 id).mp member
  rw [namespaceOf, searched]
  cases first : tree.preorder.find? (model.Has isNamespace) with
  | none =>
      have absent (id : NodeId) : model.Has isNamespace id = false := by
        rcases Nat.lt_or_ge id model.nodes.size with inside | outside
        · simpa using List.find?_eq_none.mp first id ((isTree.2.2.2 id).mpr inside)
        · simp [Model.Has, Array.getElem?_eq_none outside]
      constructor
      · rintro ⟨⟩
        exact .absent absent
      · intro given
        cases given with
        | absent => rfl
        | declared _ _ found isOne =>
            have isThere := Model.has_iff.mpr ⟨_, found, isOne⟩
            simp [absent] at isThere
  | some id =>
      obtain ⟨isOne, before, after, split, earlier⟩ := List.find?_eq_some_iff_append.mp first
      obtain ⟨node, found, accepted⟩ := Model.has_iff.mp isOne
      simp only [bind, Except.bind, Model.node_eq_ok found]
      constructor
      · rintro ⟨⟩
        rw [split] at walked
        exact .declared walked (by simpa using earlier) found accepted (namesIn_iff.mpr rfl)
      · intro given
        cases given with
        | absent none => simp [none] at isOne
        | declared walkedAgain earlierAgain otherFound otherAccepted named =>
            rw [walked] at walkedAgain
            have firstAgain := List.find?_eq_some_iff_append.mpr
              ⟨Model.has_iff.mpr ⟨_, otherFound, otherAccepted⟩, _, _, Except.ok.inj walkedAgain,
                by simpa using earlierAgain⟩
            obtain rfl := Option.some.inj (first.symm.trans firstAgain)
            obtain rfl := Option.some.inj (found.symm.trans otherFound)
            exact congrArg Except.ok (namesIn_iff.mp named)

theorem kindFolders_ne_nil {kind : ObjectKind} (observed : kind ∈ observedKinds)
    (subscribes : Bool) : kindFolders subscribes kind ≠ [] := by
  cases kind <;> simp_all [kindFolders, observedKinds]
  split <;> simp

theorem check_eq_ok {settings : SettingsSource} {path : String} {cancelled subscribes : Bool}
    {kind : ObjectKind} (asked : hasSubscriber model id = .ok subscribes)
    (named : namespaceOf model = .ok names) (observed : kind ∈ observedKinds) :
    check organization settings ⟨model, path, cancelled⟩ id kind =
      .ok ((complaint? organization ((settings path).bind (·.projectName? organization)) names
        (kindFolders subscribes kind) (Path.segments (Path.withSlashes model.filePath))).toList.map
          fun args => Model.findingInFile id
            (kind.label :: Path.fileName model.filePath :: args)) := by
  have placeable : (kindFolders subscribes kind).isEmpty = false := by
    simpa using kindFolders_ne_nil observed subscribes
  simp only [check, placement?, complaint?, asked, named]
  cases cutAtAnchor? (Path.segments (Path.withSlashes model.filePath)) with
  | none => rfl
  | some placement =>
      cases checked : placement.isChecked with
      | false => simp [checked, pure, Except.pure]
      | true =>
          simp only [checked, placeable, bind, Except.bind, Option.bind_some, if_true,
            Bool.not_true, Bool.false_eq_true, if_false]
          cases misplaced? organization ((settings path).bind (·.projectName? organization)) names
            placement (kindFolders subscribes kind) with
          | none => rfl
          | some args => rfl

open ProjectSettings in
theorem bind_projectName?_eq_iff {settings : Option ProjectSettings} :
    settings.bind (·.projectName? organization) = project ↔
      FirstOf (NamesProject organization) ((settings.map (·.affixes)).getD []) project := by
  cases settings with
  | some settings => exact projectName?_eq_iff
  | none =>
      rw [firstOf_iff fun _ _ => nameIn?_eq_some_iff]
      rfl

/-- The rule says at most one thing about an object, about the file as a whole, and it says
nothing exactly where the path of the file passes. -/
theorem onNode_judges_place (accepted : model.check = .ok ()) {node : Node}
    (found : model.nodes[id]? = some node) {kind : ObjectKind} (isObject : node.kind = .object kind)
    (observed : kind ∈ observedKinds) (organization : String) (settings : SettingsSource)
    (path : String) (cancelled : Bool) :
    ∃ segments names project findings, Path.HasSegments model.filePath segments ∧
      FirstNamespace model names ∧
      FirstOf (ProjectSettings.NamesProject organization)
        (((settings path).map (·.affixes)).getD []) project ∧
      (rule organization settings).onNode ⟨model, path, cancelled⟩ id = { findings := findings } ∧
      (findings = [] ∨ ∃ args, findings = [⟨.file, args, some id⟩]) ∧
      (findings = [] ↔
        Passes organization project names (Houses (Subscribes model id) kind) segments) := by
  have wellFormed := Model.wellFormed_of_check accepted
  have inside := Model.lt_size_of_found found
  obtain ⟨subscribes, asked, right⟩ := hasSubscriber_decides wellFormed inside
  obtain ⟨names, named⟩ := namespaceOf_succeeds wellFormed
  have shown : (model.nodes[id]?).bind (·.kind.objectKind?) = some kind := by
    simp [found, isObject, NodeKind.objectKind?]
  have answered : (rule organization settings).onNode ⟨model, path, cancelled⟩ id =
      .ofCheck (check organization settings ⟨model, path, cancelled⟩ id kind) := by
    simp only [rule, shown]
  have houses : (· ∈ kindFolders subscribes kind) = Houses (Subscribes model id) kind := by
    rw [← propext right]
    exact funext fun folder => propext mem_kindFolders_iff
  rw [answered, check_eq_ok asked named observed, ← houses]
  simp only [Outcome.ofCheck, ← complaint?_eq_none_iff]
  refine ⟨_, names, _, _, Path.hasSegments_iff.mpr rfl,
    (namespaceOf_eq_ok_iff wellFormed).mp named, bind_projectName?_eq_iff.mp rfl, rfl, ?_⟩
  cases complaint? organization ((settings path).bind (·.projectName? organization)) names
    (kindFolders subscribes kind) (Path.segments (Path.withSlashes model.filePath)) with
  | none => simp
  | some args => simp [Model.findingInFile]

/-- An event subscriber in a file with two folders of its feature, of which only the second is
behind the folder of its area. -/
def posting : Model where
  filePath := "Base\\app/Posting/Sales/posting/EventSub/Post.al"
  root := 0
  nodes := #[
    { kind := .compilationUnit, children := [1, 2] },
    { kind := .namespaceDeclaration, parent := some 0, text := some "CIG. Base .Sales.Posting" },
    { kind := .object .codeunit, parent := some 0, children := [3] },
    { kind := .attributeUse, parent := some 2, text := some "EventSubscriber" }]

/-- The same file without the second folder. -/
def misposting : Model :=
  { posting with filePath := "Base\\app/Posting/Sales//EventSub/Post.al" }

theorem onNode_judges_place_posting :
    (rule "cig" (.fixed (some { affixes := ["CIG", "CIG Base"] }))).onNode
        ⟨posting, "Post.al", false⟩ 2 = { findings := [] } ∧
      Path.HasSegments posting.filePath
        ["Base", "app", "Posting", "Sales", "posting", "EventSub", "Post.al"] ∧
      Passes "cig" (some "Base") ["CIG", "Base", "Sales", "Posting"]
        (Houses (Subscribes posting 2) .codeunit)
        ["Base", "app", "Posting", "Sales", "posting", "EventSub", "Post.al"] ∧
    (rule "cig" (.fixed (some { affixes := ["CIG", "CIG Base"] }))).onNode
        ⟨misposting, "Post.al", false⟩ 2 = { findings := [⟨.file,
          ["Codeunit", "Post.al", "Base/app/Sales/Posting/.../EventSub/",
            "Base/app/Posting/Sales/EventSub/Post.al"], some 2⟩] } ∧
      Path.HasSegments misposting.filePath
        ["Base", "app", "Posting", "Sales", "EventSub", "Post.al"] ∧
      ¬ Passes "cig" (some "Base") ["CIG", "Base", "Sales", "Posting"]
        (Houses (Subscribes misposting 2) .codeunit)
        ["Base", "app", "Posting", "Sales", "EventSub", "Post.al"] := by
  have accepted : posting.check = .ok () := by decide +kernel
  have alsoAccepted : misposting.check = .ok () := by decide +kernel
  have object : posting.nodes[2]? = some
      { kind := .object .codeunit, parent := some 0, children := [3] } := rfl
  have spaced : namespaceOf posting = .ok ["CIG", "Base", "Sales", "Posting"] := by
    decide +kernel
  have isBase : ProjectSettings.projectName? { affixes := ["CIG", "CIG Base"] } "cig" =
      some "Base" := by decide +kernel
  have silent : (rule "cig" (.fixed (some { affixes := ["CIG", "CIG Base"] }))).onNode
      ⟨posting, "Post.al", false⟩ 2 = { findings := [] } := by decide +kernel
  have reported : (rule "cig" (.fixed (some { affixes := ["CIG", "CIG Base"] }))).onNode
      ⟨misposting, "Post.al", false⟩ 2 = { findings := [⟨.file,
        ["Codeunit", "Post.al", "Base/app/Sales/Posting/.../EventSub/",
          "Base/app/Posting/Sales/EventSub/Post.al"], some 2⟩] } := by decide +kernel
  obtain ⟨segments, names, project, findings, read, first, known, answered, _, passes⟩ :=
    onNode_judges_place accepted object rfl (by decide) "cig"
      (.fixed (some { affixes := ["CIG", "CIG Base"] })) "Post.al" false
  have cut : Path.segments (Path.withSlashes posting.filePath) =
      ["Base", "app", "Posting", "Sales", "posting", "EventSub", "Post.al"] := by decide +kernel
  obtain rfl := (Path.hasSegments_iff.mp read).symm.trans cut
  have named := (namespaceOf_eq_ok_iff (Model.wellFormed_of_check accepted)).mpr first
  obtain rfl := Except.ok.inj (named.symm.trans spaced)
  obtain rfl := (ProjectSettings.projectName?_eq_iff.mpr known).symm.trans isBase
  obtain ⟨fewer, others, owner, found, alsoRead, alsoFirst, alsoKnown, alsoAnswered, _, refused⟩ :=
    onNode_judges_place alsoAccepted object rfl (by decide) "cig"
      (.fixed (some { affixes := ["CIG", "CIG Base"] })) "Post.al" false
  have alsoCut : Path.segments (Path.withSlashes misposting.filePath) =
      ["Base", "app", "Posting", "Sales", "EventSub", "Post.al"] := by decide +kernel
  obtain rfl := (Path.hasSegments_iff.mp alsoRead).symm.trans alsoCut
  have alsoNamed := (namespaceOf_eq_ok_iff (Model.wellFormed_of_check alsoAccepted)).mpr alsoFirst
  obtain rfl := Except.ok.inj (alsoNamed.symm.trans spaced)
  obtain rfl := (ProjectSettings.projectName?_eq_iff.mpr alsoKnown).symm.trans isBase
  refine ⟨silent, read, passes.mp (by simpa [silent] using answered.symm), reported, alsoRead,
    fun given => ?_⟩
  rw [alsoAnswered, refused.mpr given] at reported
  cases reported

end Rules.ProjectStructure

end ModelLint
