import ModelLint.Proofs.Rules.Faultless
import ModelLint.Proofs.Rules.ProjectStructure.Relocation

namespace ModelLint

/-! Findings about a project that lies in another directory.

The directory adds folders in front of those of a path. The rule finds its way from the anchor: it
looks at what is below, and shows the folder right above. With that folder in the path already, the
ones in front of it leave no trace. -/

namespace Path

variable {base path whole name : String}

theorem withSlashes_append (left right : String) :
    withSlashes (left ++ right) = withSlashes left ++ withSlashes right := by
  simp [withSlashes]

theorem segments_append_slash (left right : String) :
    segments (left ++ "/" ++ right) = segments left ++ segments right := by
  have spelled : (left ++ "/" ++ right).toList = left.toList ++ '/' :: right.toList := by simp
  simp only [segments, splitSlashes_of_toList spelled, String.ofList_toList, List.filter_append]

/-- A path as it reads from outside of a directory. -/
def Below (base path whole : String) : Prop :=
  whole = join base path ∨ whole = base ++ "/" ++ path

/-- Only a slash at the end of the directory is not written twice. -/
theorem Below.cases (below : Below base path whole) (relative : isAbsolute path = false) :
    base = "" ∧ whole = path ∨
      ∃ front, whole = front ++ "/" ++ path ∧ (base = front ∨ base = front ++ "/") := by
  rcases below with joined | spelled
  · rw [join, relative] at joined
    by_cases empty : base = ""
    · exact .inl ⟨empty, by simpa [empty] using joined⟩
    · by_cases slash : base.toList.getLast? = some '/'
      · obtain ⟨front, ends⟩ := List.getLast?_eq_some_iff.mp slash
        have same : base = String.ofList front ++ "/" := by
          rw [← String.toList_inj]
          simp [ends]
        exact .inr ⟨String.ofList front, by simpa [slash, ← same] using joined, .inr same⟩
      · exact .inr ⟨base, by simpa [empty, slash] using joined, .inl rfl⟩
  · exact .inr ⟨base, spelled, .inl rfl⟩

theorem Below.segments_eq (below : Below base path whole) (relative : isAbsolute path = false) :
    segments (withSlashes whole) = segments (withSlashes base) ++ segments (withSlashes path) := by
  have slash : withSlashes "/" = "/" := by decide
  have nothing : segments "" = [] := by decide
  rcases below.cases relative with ⟨rfl, rfl⟩ | ⟨front, rfl, rfl | rfl⟩
  · have empty : withSlashes "" = "" := by decide
    rw [empty, nothing, List.nil_append]
  · rw [withSlashes_append, withSlashes_append, slash, segments_append_slash]
  · have ended := segments_append_slash (withSlashes front) ""
    rw [String.append_empty, nothing, List.append_nil] at ended
    rw [withSlashes_append, withSlashes_append, slash, segments_append_slash, ended]

theorem fileName?_eq_some_iff :
    fileName? path = some name ↔
      ((splitSlashes path).filterMap inner?).getLast? = some (.normal name) := by
  have named : fileName? path = some name ↔ (components path).getLast? = some (.normal name) := by
    rw [fileName?]
    split <;> simp_all
  rw [named, components, List.getLast?_append]
  cases ((splitSlashes path).filterMap inner?).getLast? with
  | some last => rfl
  | none =>
      -- The start of a path is the root or a dot, and no name.
      simp only [Option.none_or, reduceCtorEq, iff_false]
      split
      · simp
      · split <;> simp

theorem Below.fileName?_eq (below : Below base path whole) (relative : isAbsolute path = false)
    (named : fileName? path = some name) : fileName? whole = some name := by
  rcases below.cases relative with ⟨_, rfl⟩ | ⟨front, rfl, _⟩
  · exact named
  · have spelled : (front ++ "/" ++ path).toList = front.toList ++ '/' :: path.toList := by simp
    rw [fileName?_eq_some_iff] at named ⊢
    rw [splitSlashes_of_toList spelled, String.ofList_toList, String.ofList_toList,
      List.filterMap_append, List.getLast?_append, named]
    rfl

end Path

namespace Model

variable {model : Model} {path : String}

theorem wellFormed_relocate (wellFormed : model.WellFormed) : (model.relocate path).WellFormed :=
  ⟨wellFormed.rooted, wellFormed.linked, wellFormed.distinct, wellFormed.reached,
    wellFormed.nodeSymbols, wellFormed.containers, wellFormed.declarations⟩

end Model

namespace Dispatch

/-- Rules that say the same about a model in another place make the same run over it. -/
theorem run_relocate {rules : List Rule} {model : Model} {path root other : String}
    (wellFormed : model.WellFormed) (patient : ∀ rule ∈ rules, Patient root model rule)
    (same : ∀ rule ∈ rules, ∀ (sight : Sight) (source : String),
      sight.outcome rule ⟨model.relocate path, source, false⟩ =
        sight.outcome rule ⟨model, Path.join root model.filePath, false⟩) :
    run rules other (model.relocate path) false = run rules root model false := by
  have movedPatient : ∀ rule ∈ rules, Patient other (model.relocate path) rule := by
    intro rule member sight
    rw [same rule member]
    exact patient rule member sight
  refine run_congr (Model.wellFormed_relocate wellFormed) wellFormed
    (Model.walk_relocate model path) rfl movedPatient patient fun sight => ?_
  have sameAsked : asked rules (model.relocate path) sight = asked rules model sight := by
    cases sight <;> rfl
  have sameAnchor : sight.anchor (model.relocate path) = sight.anchor model := by
    cases sight <;> rfl
  rw [emissions, emissions, sameAsked]
  refine List.flatMap_congr fun rule isAsked => ?_
  simp only [emission, same rule (List.mem_of_mem_filter isAsked) sight, sameAnchor]
  rfl

end Dispatch

namespace Rules.ProjectStructure

variable {model : Model} {organization : String} {above lead parts : List String}
  {anchor : String}

theorem isChecked_lead :
    Placement.isChecked ⟨above ++ lead, anchor, parts⟩ =
      Placement.isChecked ⟨lead, anchor, parts⟩ := rfl

/-- Of the folders above the anchor, only the last one matters. -/
theorem misplaced?_lead {project : Option String} {names folders : List String}
    (nonempty : lead ≠ []) :
    misplaced? organization project names ⟨above ++ lead, anchor, parts⟩ folders =
      misplaced? organization project names ⟨lead, anchor, parts⟩ folders := by
  have last : (above ++ lead).getLast? = lead.getLast? :=
    List.getLast?_append_of_ne_nil above nonempty
  have shown : Placement.shown ⟨above ++ lead, anchor, parts⟩ =
      Placement.shown ⟨lead, anchor, parts⟩ := by
    simp only [Placement.shown, last]
  have fits (area feature : Option String) :
      Placement.fitsNamespace ⟨above ++ lead, anchor, parts⟩ area feature =
        Placement.fitsNamespace ⟨lead, anchor, parts⟩ area feature := rfl
  have expected (folder : String) (area feature : Option String) :
      Placement.expected ⟨above ++ lead, anchor, parts⟩ folder project area feature =
        Placement.expected ⟨lead, anchor, parts⟩ folder project area feature := rfl
  have isIn : Placement.isIn ⟨above ++ lead, anchor, parts⟩ folders =
      Placement.isIn ⟨lead, anchor, parts⟩ folders := rfl
  have index : Placement.parentIndex ⟨above ++ lead, anchor, parts⟩ =
      Placement.parentIndex ⟨lead, anchor, parts⟩ := rfl
  rw [misplaced?, misplaced?, shown, fits, expected, isIn, index]

theorem onNode_relocate_lead {path : String}
    (placed : placement? model.filePath = some ⟨lead, anchor, parts⟩)
    (moved : placement? path = some ⟨above ++ lead, anchor, parts⟩) (nonempty : lead ≠ [])
    (sameName : Path.fileName path = Path.fileName model.filePath) (organization : String)
    (settings : Option ProjectSettings) (id : NodeId) (source other : String) (cancelled : Bool) :
    (rule organization (.fixed settings)).onNode ⟨model.relocate path, source, cancelled⟩ id =
      (rule organization (.fixed settings)).onNode ⟨model, other, cancelled⟩ id := by
  have movedPath : (model.relocate path).filePath = path := rfl
  have sameNodes : (model.relocate path).nodes = model.nodes := rfl
  have sameCheck (kind : ObjectKind) :
      check organization (.fixed settings) ⟨model.relocate path, source, cancelled⟩ id kind =
        check organization (.fixed settings) ⟨model, other, cancelled⟩ id kind := by
    simp only [check, movedPath, placed, moved, sameName, isChecked_lead, hasSubscriber_relocate,
      namespaceOf_relocate, SettingsSource.fixed, misplaced?_lead nonempty]
  cases shown : (model.nodes[id]?).bind (·.kind.objectKind?) with
  | none => simp only [rule, sameNodes, shown]
  | some kind => simp only [rule, sameNodes, shown, sameCheck kind]

/-- The findings about a file are the same in whatever directory the project lies, arguments
included, as long as the folder of the project is in the path and the directory adds no anchor. -/
theorem run_below (accepted : model.check = .ok ()) {base path name : String}
    (relative : Path.isAbsolute model.filePath = false)
    (named : Path.fileName? model.filePath = some name)
    (cut : Path.segments (Path.withSlashes model.filePath) = lead ++ anchor :: parts)
    (first : ∀ segment ∈ lead, ¬ Among ["App", "Test"] segment)
    (isAnchor : Among ["App", "Test"] anchor) (behind : lead ≠ [])
    (free : ∀ segment ∈ Path.segments (Path.withSlashes base), ¬ Among ["App", "Test"] segment)
    (below : Path.Below base model.filePath path) (organization : String)
    (settings : Option ProjectSettings) :
    (∀ id source other cancelled,
      (rule organization (.fixed settings)).onNode ⟨model.relocate path, source, cancelled⟩ id =
        (rule organization (.fixed settings)).onNode ⟨model, other, cancelled⟩ id) ∧
    ∀ root other cancelled,
      Dispatch.run [rule organization (.fixed settings)] other (model.relocate path) cancelled =
        Dispatch.run [rule organization (.fixed settings)] root model cancelled := by
  have placed : placement? model.filePath = some ⟨lead, anchor, parts⟩ := by
    rw [placement?, cut, cutAtAnchor?_append first isAnchor]
  have moved : placement? path =
      some ⟨Path.segments (Path.withSlashes base) ++ lead, anchor, parts⟩ := by
    rw [placement?, below.segments_eq relative, cut, ← List.append_assoc]
    exact cutAtAnchor?_append (List.forall_mem_append.mpr ⟨free, first⟩) isAnchor
  have sameName : Path.fileName path = Path.fileName model.filePath := by
    simp only [Path.fileName, named, below.fileName?_eq relative named, Option.getD_some]
  have sameNode := onNode_relocate_lead placed moved behind sameName organization settings
  refine ⟨sameNode, fun root other cancelled => ?_⟩
  cases cancelled with
  | true => simp only [Dispatch.run, if_true]
  | false =>
      refine Dispatch.run_relocate (Model.wellFormed_of_check accepted) ?_ ?_
      · intro rule member
        obtain rfl := List.mem_singleton.mp member
        exact (Builtin.projectStructure organization (.fixed settings)).patient root
      · intro rule member sight source
        obtain rfl := List.mem_singleton.mp member
        cases sight with
        | node id => exact sameNode id _ _ _
        | symbol id => rfl

theorem run_below_misfiled :
    (Dispatch.run [rule "CIG" (.fixed none)] ""
        (misfiled.relocate "C:\\src/app-dev//Base/App/Misc/Post.al")
        false).diagnostics.map (·.args) =
      [["Codeunit", "Post.al", "<Project>/App/<Area>/.../Codeunit/", "Base/App/Misc/Post.al"]] := by
  have accepted : misfiled.check = .ok () := by decide +kernel
  have cut : Path.segments (Path.withSlashes misfiled.filePath) =
      ["Base"] ++ "App" :: ["Misc", "Post.al"] := by decide +kernel
  have first : cutAtAnchor? ["Base"] = none := by decide +kernel
  have free : cutAtAnchor? (Path.segments (Path.withSlashes "C:\\src/app-dev/")) = none := by
    decide +kernel
  have isAnchor : isOneOf anchors "App" = true := by decide +kernel
  have named : Path.fileName? misfiled.filePath = some "Post.al" := by decide +kernel
  obtain ⟨_, sameRun⟩ := run_below accepted (by decide) named cut
    (cutAtAnchor?_eq_none_iff.mp first) (isOneOf_iff.mp isAnchor) (by simp)
    (cutAtAnchor?_eq_none_iff.mp free) (.inr rfl) "CIG" none
  rw [show "C:\\src/app-dev//Base/App/Misc/Post.al" =
    "C:\\src/app-dev/" ++ "/" ++ misfiled.filePath by decide, sameRun "" "" false]
  decide +kernel

end Rules.ProjectStructure

end ModelLint
