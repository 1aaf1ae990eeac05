import ModelLint.Rule
import ModelLint.Settings

namespace ModelLint.Rules.ProjectStructure

open ModelLint.Text

/-! Source files have to lie where their namespace and kind say.

Below the folder of the application or the tests, the folders are those of the area
and the feature, in this order and possibly with others between them, and last the
folder of the kind of object. The namespace names the organization, the project,
the area and the feature. -/

def descriptor : Descriptor where
  id := "CIG0000"
  name := "project-structure"
  title := "Source files must follow the project folder structure"
  message := "\x7b0\x7d '\x7b1\x7d' is not in the expected folder structure. " ++
    "Expected: '\x7b2\x7d', actual: '\x7b3\x7d'"
  category := "Design"
  severity := .warning
  enabledByDefault := true

def defaultOrganization : String := "CIG"

/-- Folders that hold the sources of an application or of its tests. -/
def anchors : List String := ["App", "Test"]

/-- Folders of tools, whose files are not looked at. -/
def toolFolders : List String :=
  [".vscode", ".alpackages", ".altestrunner", ".snapshots", "Translations"]

def isOneOf (names : List String) (segment : String) : Bool :=
  names.any (sameIgnoringCase segment)

/-- The kinds of objects that have a folder, in the order in which they are asked for. -/
def observedKinds : List ObjectKind :=
  [.codeunit, .table, .tableExtension, .page, .pageExtension, .pageCustomization, .report,
    .reportExtension, .query, .xmlPort, .controlAddIn, .profile, .profileExtension, .interface,
    .enum, .enumExtension]

/-- The folders accepted for a kind of object, the preferred one first. A codeunit
that subscribes to events has a folder of its own. -/
def kindFolders (subscribes : Bool) : ObjectKind → List String
  | .codeunit => if subscribes then ["EventSub"] else ["Codeunit"]
  | .tableExtension => ["TableExt", "TableExtension"]
  | .pageExtension => ["PageExt", "PageExtension"]
  | .reportExtension => ["ReportExtension", "ReportExt"]
  | .enumExtension => ["EnumExtension", "EnumExt"]
  | .permissionSet => []
  | kind => [kind.label]

/-- Whether a node is an attribute that makes an event subscriber. -/
def marksSubscriber (node : Node) : Bool :=
  node.kind = .attributeUse && occursIn "eventsubscriber".toList (lower node.name).toList

/-- Whether an event subscriber is declared below a node. -/
def hasSubscriber (model : Model) (object : NodeId) : Except MissingId Bool := do
  return (← model.findNode marksSubscriber (← model.descendants object)).isSome

def dottedSegments (name : String) : List String :=
  ((pieces '.' name.toList).map trim).filterMap fun segment =>
    if segment.isEmpty then none else some (String.ofList segment)

/-- The segments of the first namespace of a model. -/
def namespaceOf (model : Model) : Except MissingId (List String) := do
  match ← model.findFirst .namespaceDeclaration with
  | some id => return dottedSegments (← model.node id).name
  | none => return []

/-- A path cut at its anchor. -/
structure Placement where
  /-- The segments above the anchor. -/
  lead : List String
  anchor : String
  /-- The segments below the anchor, of which the last is the file. -/
  parts : List String
deriving DecidableEq, Repr, Inhabited

/-- Cuts a list of segments at the first anchor. -/
def cutAtAnchor? : List String → Option Placement
  | [] => none
  | segment :: rest =>
      if isOneOf anchors segment then some ⟨[], segment, rest⟩
      else (cutAtAnchor? rest).map fun placement =>
        { placement with lead := segment :: placement.lead }

def placement? (path : String) : Option Placement :=
  cutAtAnchor? (Path.segments (Path.withSlashes path))

namespace Placement

/-- Whether the place of a file is checked at all. -/
def isChecked (placement : Placement) : Bool :=
  !placement.parts.head?.any (isOneOf toolFolders) && 2 ≤ placement.parts.length

/-- Position of the folder that holds the file. -/
def parentIndex (placement : Placement) : Nat :=
  placement.parts.length - 2

/-- Whether the folder that holds the file is one of these. -/
def isIn (placement : Placement) (folders : List String) : Bool :=
  (placement.parts[placement.parentIndex]?).any (isOneOf folders)

/-- Whether the area lies above the folder of the kind, and the feature behind it. -/
def fitsNamespace (placement : Placement) (area feature : Option String) : Bool :=
  match area with
  | none => true
  | some area =>
      match Path.position? placement.parts area 0 placement.parentIndex with
      | none => false
      | some index =>
          feature.all fun feature =>
            (Path.position? placement.parts feature (index + 1) placement.parentIndex).isSome

/-- The part of the path that a message shows, from the folder of the project on. -/
def shown (placement : Placement) : String :=
  "/".intercalate (placement.lead.getLast?.toList ++ placement.anchor :: placement.parts)

/-- The path that a message asks for. -/
def expected (placement : Placement) (folder : String) (project area feature : Option String) :
    String :=
  let above := match area, feature with
    | some area, some feature => [area, feature]
    | some area, none => [area]
    | none, _ => ["<Area>"]
  "/".intercalate (project.getD "<Project>" :: placement.anchor :: above ++ ["...", folder, ""])

end Placement

/-- Whether the namespace names the organization, and the project if it is known. -/
def namesOwner (segments : List String) (organization : String) (project : Option String) : Bool :=
  segments.head?.all (sameIgnoringCase · organization) &&
    match segments[1]?, project with
    | some declared, some expected => sameIgnoringCase declared expected
    | _, _ => true

/-- The arguments of the message about a misplaced file, if it is one. -/
def misplaced? (organization : String) (project : Option String) (segments : List String)
    (placement : Placement) (folders : List String) : Option (List String) :=
  let area := segments[2]?
  let feature := segments[3]?
  if placement.isIn folders && 1 ≤ placement.parentIndex &&
      placement.fitsNamespace area feature && namesOwner segments organization project then none
  else some [placement.expected (folders.headD "") project area feature, placement.shown]

def check (organization : String) (settings : SettingsSource) (context : Context) (id : NodeId)
    (kind : ObjectKind) : Except MissingId (List Finding) := do
  let model := context.model
  let some placement := placement? model.filePath | return []
  if !placement.isChecked then return []
  let folders := kindFolders (← hasSubscriber model id) kind
  if folders.isEmpty then return []
  let segments ← namespaceOf model
  let project := (settings context.sourcePath).bind (·.projectName? organization)
  match misplaced? organization project segments placement folders with
  | some args =>
      return [Model.findingInFile id (kind.label :: Path.fileName model.filePath :: args)]
  | none => return []

def rule (organization : String) (settings : SettingsSource) : Rule where
  descriptor := descriptor
  interests := observedKinds.map fun kind => .node (.object kind)
  onNode context id :=
    match (context.model.nodes[id]?).bind (·.kind.objectKind?) with
    | some kind => .ofCheck (check organization settings context id kind)
    | none => { fault := some (.shape "object node without object kind") }

end ModelLint.Rules.ProjectStructure
