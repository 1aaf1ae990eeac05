import ModelLint.Text.Ascii
import ModelLint.Text.Search

namespace ModelLint.Path

open ModelLint.Text

/-! Slash-separated paths.

A path is kept as the text it was written as; its components are what two
spellings of one path have in common. Repeated and trailing slashes and inner
dots vanish from the components, while a leading dot and every double dot stay. -/

inductive Component where
  /-- The leading slash of an absolute path. -/
  | root
  /-- A leading dot. -/
  | current
  /-- A double dot. -/
  | parent
  | normal (name : String)
deriving DecidableEq, Repr, Inhabited

namespace Component

/-- The root comes before a leading dot, that before a double dot, and that before
every name. -/
def rank : Component → Nat
  | root => 0
  | current => 1
  | parent => 2
  | normal _ => 3

/-- Two names compare by their characters, any other two components by rank. -/
def compare : Component → Component → Ordering
  | normal left, normal right => Ord.compare left right
  | left, right => Ord.compare left.rank right.rank

instance : Ord Component := ⟨Component.compare⟩

end Component

/-- The texts between the slashes. -/
def splitSlashes (path : String) : List String :=
  (pieces '/' path.toList).map String.ofList

def isAbsolute (path : String) : Bool :=
  path.toList.head? == some '/'

/-- What a text between two slashes contributes behind the start of a path. -/
def inner? (segment : String) : Option Component :=
  if segment = "" ∨ segment = "." then none
  else if segment = ".." then some .parent
  else some (.normal segment)

/-- The components of a path, first to last. -/
def components (path : String) : List Component :=
  let segments := splitSlashes path
  let start :=
    if isAbsolute path then [Component.root]
    else if segments.head? = some "." then [Component.current]
    else []
  start ++ segments.filterMap inner?

/-- Compares component by component; the shorter of two paths that agree so far
comes first. -/
def compareComponents : List Component → List Component → Ordering
  | [], [] => .eq
  | [], _ :: _ => .lt
  | _ :: _, [] => .gt
  | left :: lefts, right :: rights =>
      (Ord.compare left right).then (compareComponents lefts rights)

/-- The order of paths by their components. -/
def compare (left right : String) : Ordering :=
  compareComponents (components left) (components right)

/-- The last component, if it is a name. -/
def fileName? (path : String) : Option String :=
  match (components path).getLast? with
  | some (.normal name) => some name
  | _ => none

/-- The last component if it is a name, and otherwise the whole path. -/
def fileName (path : String) : String :=
  (fileName? path).getD path

/-- `path` as seen from the directory `base`. An absolute path stays as it is. -/
def join (base path : String) : String :=
  if isAbsolute path then path
  else if base = "" ∨ base.toList.getLast? = some '/' then base ++ path
  else base ++ "/" ++ path

/-- The text of a path with these components. -/
def ofComponents : List Component → String
  | [] => ""
  | .root :: rest => "/" ++ body rest
  | first :: rest => body (first :: rest)
where
  text : Component → String
  | .root => ""
  | .current => "."
  | .parent => ".."
  | .normal name => name
  body (rest : List Component) : String :=
    "/".intercalate (rest.map text)

/-- How many of the texts between the slashes lead up to each component behind the root,
first to last. -/
def componentEnds (segments : List String) : List Nat :=
  segments.zipIdx.filterMap fun (segment, index) =>
    if (inner? segment).isSome ∨ (index = 0 ∧ segment = ".") then some (index + 1) else none

/-- The directories around a path, nearest first, spelled as in the path. The outermost is
the root of an absolute path and the empty path of a relative one. -/
def ancestors (path : String) : List String :=
  let segments := splitSlashes path
  let outermost := if isAbsolute path then "/" else ""
  let inner := (componentEnds segments).map fun count => "/".intercalate (segments.take count)
  (outermost :: inner).dropLast.reverse

/-- The number of bytes that a path may have. -/
def sizeLimit : Nat := 4095

/-- Whether a path is too long to lead anywhere. -/
def isTooLong (path : String) : Bool :=
  sizeLimit < path.utf8ByteSize

/-- A path with every backslash read as a slash. -/
def withSlashes (path : String) : String :=
  String.ofList (path.toList.map fun c => if c = '\\' then '/' else c)

/-- The texts between slashes that are not empty. -/
def segments (path : String) : List String :=
  (splitSlashes path).filter (· ≠ "")

/-- Index of the first segment from `start` up to `stop` that equals `name`,
ignoring letter case. -/
def position? (segments : List String) (name : String) (start stop : Nat) : Option Nat :=
  (List.range' start (min stop segments.length - start)).find? fun index =>
    (segments[index]?).any fun segment => sameIgnoringCase segment name

end ModelLint.Path
