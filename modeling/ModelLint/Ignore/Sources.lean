import ModelLint.Ignore.Personal
import ModelLint.Ignore.Repository

namespace ModelLint.Ignore

open ModelLint.Text

/-! All that decides about passing over files.

There are several kinds of ignore files. The weightiest kind with a verdict decides, and
within one kind the nearest directory. -/

/-- The ignore files of one kind, by their directory. -/
abbrev Layer := List (Route × IgnoreFile)

/-- The names of ignore files, the weightiest one first. -/
def fileNames (respectGitignore : Bool) : List String :=
  ".ignore" :: if respectGitignore then [".gitignore"] else []

/-- The ignore files with a certain name. -/
def layerNamed (tree : FileTree) (name : String) : Layer :=
  tree.files.filterMap fun (route, content) =>
    if route.getLast? = some name then some (route.dropLast, .parse content) else none

/-- The absolute path that a route spells. -/
def pathOf (route : Route) : String :=
  "/" ++ "/".intercalate route

/-- The directory whose repository a file belongs to, with the place of its exclude file,
if the file is the exclude file or the link of a working tree. -/
def repository? (tree : FileTree) (workplace : Workplace) (route : Route) :
    Option (Route × ExcludeFile) :=
  let way := repositoryEntry :: excludeWay
  let directory := route.take (route.length - way.length)
  if route = directory ++ way then some (directory, .at (pathOf route))
  else if route.getLast? = some repositoryEntry then
    some (route.dropLast, excludeOfLink tree workplace (pathOf route))
  else none

structure Sources where
  /-- The kinds of ignore files in directories, the weightiest one first. -/
  layers : List Layer
  /-- The directories whose exclude file cannot be told. -/
  unreadable : List Route
  personal : IgnoreFile
  workplace : Workplace
deriving Inhabited

namespace Sources

def ofTree (tree : FileTree) (workplace : Workplace) (respectGitignore : Bool) : Sources :=
  let repositories := tree.files.filterMap (repository? tree workplace ·.1)
  let excludes := repositories.filterMap fun
    | (directory, .at path) => (workplace.read? tree path).map (directory, IgnoreFile.parse ·)
    | _ => none
  { layers := (fileNames respectGitignore).map (layerNamed tree) ++ [excludes]
    unreadable := (repositories.filter (·.2 = .unreadable)).map (·.1)
    personal := personalFile tree workplace
    workplace := workplace }

/-- The directories above a route, nearest first, each with the way down from it. -/
def above (route : Route) : List (Route × Route) :=
  (List.range route.length).reverse.map fun depth => (route.take depth, route.drop depth)

/-- Whether a layer keeps what lies at a route. -/
def layerVerdict? (layer : Layer) (route : Route) (isDirectory : Bool) : Option Bool :=
  (above route).findSome? fun (directory, way) =>
    (layer.lookup directory).bind (·.verdict? ("/".intercalate way) isDirectory)

/-- The text of a path behind that of the working directory, if it starts with it. -/
def personalPath (sources : Sources) (path : String) : String :=
  match after? sources.workplace.workingDirectory.toList path.toList with
  | some ('/' :: rest) => String.ofList rest
  | some rest => String.ofList rest
  | none => path

/-- Whether what lies at a route is passed over. The path is the text by which it was
found: the user's ignore file looks at that. -/
def isIgnored (sources : Sources) (route : Route) (path : String) (isDirectory : Bool) : Bool :=
  let verdict := (sources.layers.findSome? (layerVerdict? · route isDirectory)).or
    (sources.personal.verdict? (sources.personalPath path) isDirectory)
  verdict = some false

/-- Whether every ignore file in a directory above the route could be used. -/
def areSoundAbove (sources : Sources) (route : Route) : Bool :=
  sources.layers.all (fun layer =>
      layer.all fun (directory, file) => file.isSound || !FileTree.isAbove directory route) &&
    !sources.unreadable.any (FileTree.isAbove · route)

end Sources

end ModelLint.Ignore
