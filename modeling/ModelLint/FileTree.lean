import ModelLint.Path

namespace ModelLint

/-! The files and directories that an analysis can see.

A tree is a value, so an analysis of it is a function. Files and directories are
found by their route, the names from the root of the tree down to them. -/

/-- The names that lead from the root to a file or directory. -/
abbrev Route := List String

structure FileTree where
  /-- The directories that were made on their own. Any route above a file is a
  directory too. -/
  directories : List Route := []
  files : List (Route × ByteArray) := []
deriving Inhabited

namespace FileTree

/-- Whether `outer` is a route above `inner`. -/
def isAbove (outer inner : Route) : Bool :=
  outer.isPrefixOf inner && outer.length < inner.length

def isDirectory (tree : FileTree) (route : Route) : Bool :=
  route.isEmpty || tree.directories.contains route ||
    tree.directories.any (isAbove route) || tree.files.any (isAbove route ·.1)

def contentAt? (tree : FileTree) (route : Route) : Option ByteArray :=
  (tree.files.find? (·.1 = route)).map (·.2)

/-- Makes a directory, unless there is one. -/
def addDirectory (tree : FileTree) (route : Route) : FileTree :=
  if tree.isDirectory route then tree else { tree with directories := route :: tree.directories }

/-- Writes a file in place of one that may be there. -/
def put (tree : FileTree) (route : Route) (content : ByteArray) : FileTree :=
  { tree with files := (route, content) :: tree.files.filter (·.1 ≠ route) }

/-- Follows the texts between the slashes of a path. Each of them can only be
followed from a directory. -/
def follow? (tree : FileTree) : (start : Route) → (segments : List String) → Option Route
  | route, [] => some route
  | route, segment :: rest =>
      if tree.isDirectory route then
        if segment = "" ∨ segment = "." then tree.follow? route rest
        else if segment = ".." then tree.follow? route.dropLast rest
        else tree.follow? (route ++ [segment]) rest
      else none

/-- The route that an absolute path of any length leads to, whether something is there or
not. -/
def trace? (tree : FileTree) (path : String) : Option Route :=
  if Path.isAbsolute path then tree.follow? [] (Path.splitSlashes path) else none

/-- The route that an absolute path leads to, whether something is there or not. A path
that is too long leads nowhere. -/
def locate? (tree : FileTree) (path : String) : Option Route :=
  if Path.isTooLong path then none else tree.trace? path

/-- The content of the file at a path. -/
def read? (tree : FileTree) (path : String) : Option ByteArray := do
  tree.contentAt? (← tree.locate? path)

/-- The text of the file at a path, which has to be UTF-8. -/
def readText? (tree : FileTree) (path : String) : Option String := do
  String.fromUTF8? (← tree.read? path)

def isFile (tree : FileTree) (path : String) : Bool :=
  (tree.read? path).isSome

/-- The route that the text of an absolute path spells out. -/
def routeOf (path : String) : Route :=
  (Path.splitSlashes path).foldl (fun route segment =>
    if segment = "" ∨ segment = "." then route
    else if segment = ".." then route.dropLast
    else route ++ [segment]) []

end FileTree

end ModelLint
