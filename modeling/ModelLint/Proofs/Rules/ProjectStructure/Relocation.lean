import ModelLint.Proofs.Path
import ModelLint.Proofs.Rules.ProjectStructure.Verdict

namespace ModelLint

/-! What the findings about an object have from the path of its file.

The folders are read off the path with every backslash taken for a slash. The name of the file is
read off the path as it is written, where a backslash is a character like any other: the name
shown is that of the file only behind a slash. -/

namespace Model

/-- The model of the same source in another place. -/
def relocate (model : Model) (path : String) : Model :=
  { model with filePath := path }

variable (model : Model) (path : String)

theorem findNode_relocate (accepts : Node → Bool) (ids : List NodeId) :
    (model.relocate path).findNode accepts ids = model.findNode accepts ids := by
  induction ids with
  | nil => rfl
  | cons id rest ih =>
      simp only [findNode, ih]
      rfl

theorem visit_relocate (steps : Nat) (pending : List NodeId) :
    (model.relocate path).visit steps pending = model.visit steps pending := by
  induction steps generalizing pending with
  | zero => cases pending <;> rfl
  | succ steps ih =>
      cases pending with
      | nil => rfl
      | cons id rest =>
          simp only [visit, ih]
          rfl

theorem descendants_relocate (id : NodeId) :
    (model.relocate path).descendants id = model.descendants id := by
  simp only [descendants, visit_relocate]
  rfl

theorem walk_relocate : (model.relocate path).walk = model.walk := by
  simp only [walk, descendantsAndSelf, visit_relocate]
  rfl

theorem findFirst_relocate (kind : NodeKind) :
    (model.relocate path).findFirst kind = model.findFirst kind := by
  simp only [findFirst, walk_relocate, findNode_relocate]

end Model

namespace Rules.ProjectStructure

variable {model : Model} {id : NodeId}

theorem hasSubscriber_relocate (path : String) :
    hasSubscriber (model.relocate path) id = hasSubscriber model id := by
  simp only [hasSubscriber, Model.descendants_relocate, Model.findNode_relocate]

theorem namespaceOf_relocate (path : String) :
    namespaceOf (model.relocate path) = namespaceOf model := by
  simp only [namespaceOf, Model.findFirst_relocate]
  rfl

/-- A complaint says which path is asked for and which one is there. -/
theorem exists_complaint (organization : String) (project : Option String)
    (names folders segments : List String) :
    ∃ shown : Option (String × String),
      complaint? organization project names folders segments =
        shown.map fun paths => [paths.1, paths.2] := by
  cases cut : cutAtAnchor? segments with
  | none => exact ⟨none, by rw [complaint?, cut]; rfl⟩
  | some placement =>
      rw [complaint?, cut, Option.bind_some, misplaced?]
      split
      · split
        · exact ⟨none, rfl⟩
        · exact ⟨some (_, _), rfl⟩
      · exact ⟨none, rfl⟩

/-- The finding about an object in any place: the place decides through its folders whether there
is one, and what it says of them. -/
theorem onNode_relocate (accepted : model.check = .ok ()) {node : Node}
    (found : model.nodes[id]? = some node) {kind : ObjectKind} (isObject : node.kind = .object kind)
    (observed : kind ∈ observedKinds) (organization : String)
    (settings : Option ProjectSettings) :
    ∃ names folders, ∀ path source cancelled,
      (rule organization (.fixed settings)).onNode ⟨model.relocate path, source, cancelled⟩ id =
        { findings := (complaint? organization (settings.bind (·.projectName? organization)) names
            folders (Path.segments (Path.withSlashes path))).toList.map fun args =>
              Model.findingInFile id (kind.label :: Path.fileName path :: args) } := by
  have wellFormed := Model.wellFormed_of_check accepted
  obtain ⟨subscribes, asked, _⟩ :=
    hasSubscriber_decides wellFormed (Model.lt_size_of_found found)
  obtain ⟨names, named⟩ := namespaceOf_succeeds wellFormed
  refine ⟨names, kindFolders subscribes kind, fun path source cancelled => ?_⟩
  have shown : ((model.relocate path).nodes[id]?).bind (·.kind.objectKind?) = some kind := by
    simp [Model.relocate, found, isObject, NodeKind.objectKind?]
  have answered : check organization (.fixed settings) ⟨model.relocate path, source, cancelled⟩ id
      kind = .ok _ :=
    check_eq_ok ((hasSubscriber_relocate path).trans asked)
      ((namespaceOf_relocate path).trans named) observed
  simp only [rule, shown, answered, Outcome.ofCheck]
  rfl

/-- However the separators of a path are written, there is a finding about an object or there is
none, and its label, the path that it asks for and the path that it shows are the same. The name
that it shows is that of the file exactly if the separator in front of the name is a slash. -/
theorem onNode_across_separators (accepted : model.check = .ok ()) {node : Node}
    (found : model.nodes[id]? = some node) {kind : ObjectKind} (isObject : node.kind = .object kind)
    (observed : kind ∈ observedKinds) (organization : String)
    (settings : Option ProjectSettings) :
    ∃ shown : Option (String × String), ∀ path,
      Path.withSlashes path = Path.withSlashes model.filePath →
      (∀ source cancelled,
        (rule organization (.fixed settings)).onNode ⟨model.relocate path, source, cancelled⟩ id =
          { findings := shown.toList.map fun paths => Model.findingInFile id
              [kind.label, Path.fileName path, paths.1, paths.2] }) ∧
      ∀ front separator name, separator = '/' ∨ separator = '\\' → Path.IsName name →
        path.toList = front ++ separator :: name.toList →
        (Path.fileName path = name ↔ separator = '/') := by
  obtain ⟨names, folders, judged⟩ :=
    onNode_relocate accepted found isObject observed organization settings
  obtain ⟨shown, complained⟩ := exists_complaint organization
    (settings.bind (·.projectName? organization)) names folders
    (Path.segments (Path.withSlashes model.filePath))
  refine ⟨shown, fun path same => ⟨fun source cancelled => ?_, ?_⟩⟩
  · rw [judged, same, complained]
    cases shown <;> rfl
  · intro front separator name isSeparator isName spelled
    rcases isSeparator with rfl | rfl
    · simp [Path.fileName_of_toList isName spelled]
    · obtain ⟨inner, longer⟩ := Path.fileName_of_backslash isName.noSlash spelled
      refine iff_of_false (fun same => ?_) (by decide)
      have lengths := congrArg List.length longer
      simp only [same, List.length_append, List.length_cons] at lengths
      omega

/-- A codeunit in a folder that is no folder for codeunits. -/
def misfiled : Model where
  filePath := "Base/App/Misc/Post.al"
  nodes := #[
    { kind := .compilationUnit, children := [1] },
    { kind := .object .codeunit, parent := some 0 }]

theorem onNode_across_separators_misfiled :
    (rule "CIG" (.fixed none)).onNode ⟨misfiled.relocate "Base\\App\\Misc/Post.al", "", false⟩ 1 =
      (rule "CIG" (.fixed none)).onNode ⟨misfiled, "", false⟩ 1 := by
  have accepted : misfiled.check = .ok () := by decide +kernel
  obtain ⟨shown, judged⟩ :=
    onNode_across_separators accepted (rfl : misfiled.nodes[1]? = _) rfl (by decide) "CIG" none
  obtain ⟨answered, named⟩ := judged misfiled.filePath rfl
  obtain ⟨otherAnswered, otherNamed⟩ := judged "Base\\App\\Misc/Post.al" (by decide +kernel)
  have name : Path.fileName misfiled.filePath = "Post.al" :=
    (named "Base/App/Misc".toList '/' "Post.al" (by decide) (by decide) (by decide)).mpr rfl
  have otherName : Path.fileName "Base\\App\\Misc/Post.al" = "Post.al" :=
    (otherNamed "Base\\App\\Misc".toList '/' "Post.al" (by decide) (by decide) (by decide)).mpr rfl
  rw [otherAnswered, otherName, ← name, ← answered]
  rfl

/-- With a backslash in front of the name, the finding shows the whole path for the name. -/
theorem onNode_differs_misfiled :
    misfiled.check = .ok () ∧ (misfiled.relocate "Base\\App\\Misc\\Post.al").check = .ok () ∧
    Path.withSlashes "Base\\App\\Misc\\Post.al" = Path.withSlashes misfiled.filePath ∧
    ((rule "CIG" (.fixed none)).onNode ⟨misfiled, "", false⟩ 1).findings.map (·.args) =
      [["Codeunit", "Post.al", "<Project>/App/<Area>/.../Codeunit/", "Base/App/Misc/Post.al"]] ∧
    ((rule "CIG" (.fixed none)).onNode
      ⟨misfiled.relocate "Base\\App\\Misc\\Post.al", "", false⟩ 1).findings.map (·.args) =
      [["Codeunit", "Base\\App\\Misc\\Post.al", "<Project>/App/<Area>/.../Codeunit/",
        "Base/App/Misc/Post.al"]] := by
  decide +kernel

end Rules.ProjectStructure

end ModelLint
