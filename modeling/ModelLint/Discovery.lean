import ModelLint.Exclusion.Pattern
import ModelLint.Ignore.Sources

namespace ModelLint.Discovery

open ModelLint.Exclusion (Pattern)

/-! Finding the model files below a directory. -/

/-- The end of the name of a model file. -/
def suffix : String := ".model.json"

structure ModelFile where
  path : String
  content : ByteArray
deriving Inhabited

/-- Where files are looked for, and which ones are passed over. -/
structure Search where
  /-- Absolute path of a directory, or of a single file. -/
  root : String
  exclude : List Pattern
  respectGitignore : Bool
  workplace : Workplace
deriving Inhabited

namespace Search

/-- Whether a file is excluded by its absolute path or by its path from the root. -/
def isExcluded (search : Search) (path relative : String) : Bool :=
  search.exclude.any fun pattern => pattern.fits path.toList || pattern.fits relative.toList

/-- The path of what is reached from the root by the given way. -/
def pathTo (search : Search) (way : Route) : String :=
  if way.isEmpty then search.root else Path.join search.root ("/".intercalate way)

/-- Whether the file that is reached from the root by the given way is ignored, or some
directory on the way to it. -/
def isIgnored (search : Search) (sources : Ignore.Sources) (root way : Route) : Bool :=
  (List.range' 1 way.length).any fun depth =>
    let part := way.take depth
    sources.isIgnored (root ++ part) (search.pathTo part) (depth < way.length)

/-- The model file at a route, if it lies below the root and is not passed over. -/
def accept? (search : Search) (sources : Ignore.Sources) (root : Route)
    (file : Route × ByteArray) : Option ModelFile :=
  if root.isPrefixOf file.1 then
    let way := file.1.drop root.length
    let path := search.pathTo way
    let isModel := (Text.before? suffix.toList path.toList).isSome
    if isModel && !search.isExcluded path ("/".intercalate way) &&
        !search.isIgnored sources root way then
      some ⟨path, file.2⟩
    else none
  else none

/-- Finds the model files, ordered by path. There is no answer if nothing is at the
root, or if the root is a directory and an ignore file above it cannot be used. -/
def run? (search : Search) (tree : FileTree) : Option (List ModelFile) := do
  let root ← tree.locate? search.root
  let sources := Ignore.Sources.ofTree tree search.workplace search.respectGitignore
  let isUsable :=
    if tree.isDirectory root then sources.areSoundAbove root else (tree.contentAt? root).isSome
  if !isUsable then none
  let found := tree.files.filterMap (search.accept? sources root)
  return found.mergeSort fun left right => (Path.compare left.path right.path).isLE

end Search

end ModelLint.Discovery
