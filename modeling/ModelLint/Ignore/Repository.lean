import ModelLint.FileTree
import ModelLint.Ignore.Rules
import ModelLint.Workplace

namespace ModelLint.Ignore

open ModelLint.Text

/-! The exclude files of repositories.

The data of a repository lie in a directory called `.git`, its exclude file among them. In
a linked working tree `.git` is a file instead. Its first line names a directory, and there
the first line of a file names the directory with the data. -/

/-- The name of the entry that makes a directory a repository. -/
def repositoryEntry : String := ".git"

/-- The way from the data of a repository to its exclude file. -/
def excludeWay : Route := ["info", "exclude"]

/-- What comes of asking for the first line of a file. -/
inductive FirstLine where
  /-- There is no such file, or it is empty. -/
  | absent
  /-- The line is not text, or the file is a directory. -/
  | unreadable
  | text (line : String)
deriving DecidableEq, Repr, Inhabited

/-- The first line of what lies at a path. -/
def firstLine (tree : FileTree) (workplace : Workplace) (path : String) : FirstLine :=
  match workplace.locate? tree path with
  | none => .absent
  | some route =>
      if tree.isDirectory route then .unreadable
      else match (tree.contentAt? route).map fun content => splitLines content.toList with
        | none | some [] | some [[]] => .absent
        | some (line :: _) =>
            match String.fromUTF8? ⟨line.toArray⟩ with
            | some text => .text text
            | none => .unreadable

/-- Where a repository has its exclude file. -/
inductive ExcludeFile where
  | nowhere
  /-- The way to it cannot be read. -/
  | unreadable
  | at (path : String)
deriving DecidableEq, Repr, Inhabited

/-- Goes on with the first line of a file, if there is one. -/
def FirstLine.follow (line : FirstLine) (next : String → ExcludeFile) : ExcludeFile :=
  match line with
  | absent => .nowhere
  | unreadable => .unreadable
  | text line => next line

def excludeIn (data : String) : ExcludeFile :=
  .at (Path.join data ("/".intercalate excludeWay))

/-- The directory that the first line of a link names. -/
def namedDirectory? (line : String) : Option String :=
  (after? "gitdir: ".toList line.toList).map String.ofList

/-- The path of the file that names the directory with the data. -/
def commonFile (named : String) : String :=
  Path.join named "commondir"

/-- The exclude file of a linked working tree, given the directory that it names. A common
directory that starts with a dot is seen from there. -/
def linkedExclude (tree : FileTree) (workplace : Workplace) (named : String) : ExcludeFile :=
  (firstLine tree workplace (commonFile named)).follow fun common =>
    excludeIn (if common.toList.head? = some '.' then Path.join named common else common)

/-- The exclude file of the working tree whose link is the file at the given path. -/
def excludeOfLink (tree : FileTree) (workplace : Workplace) (link : String) : ExcludeFile :=
  (firstLine tree workplace link).follow fun line =>
    match namedDirectory? line with
    | some named => linkedExclude tree workplace named
    | none => .nowhere

end ModelLint.Ignore
