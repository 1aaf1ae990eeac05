import ModelLint.FileTree

namespace ModelLint

/-- Where a program runs, and for whom. -/
structure Workplace where
  /-- Absolute path of the working directory. -/
  workingDirectory : String
  /-- Home directory that the environment names. -/
  home : Option String := none
  /-- Home directory of the user's account. -/
  accountHome : Option String := none
  /-- Directory for the settings of the user, if it is not the usual one. -/
  settingsDirectory : Option String := none
  /-- File with settings for repositories that the environment names. -/
  repositorySettings : Option String := none
deriving DecidableEq, Repr, Inhabited

namespace Workplace

/-- A path as seen from the working directory. -/
def absolute (workplace : Workplace) (path : String) : String :=
  Path.join workplace.workingDirectory path

/-- The home directory of the user. The empty path does not count as one. -/
def home? (workplace : Workplace) : Option String :=
  (workplace.home.filter (· ≠ "")).or workplace.accountHome

/-- The directory for the settings of the user. The empty path does not count as one. -/
def settingsDirectory? (workplace : Workplace) : Option String :=
  (workplace.settingsDirectory.filter (· ≠ "")).or (workplace.home?.map (Path.join · ".config"))

/-- The route that a path leads to from the working directory, whether something is there or
not. Only the path itself can be too long. -/
def locate? (workplace : Workplace) (tree : FileTree) (path : String) : Option Route :=
  if Path.isTooLong path then none else tree.trace? (workplace.absolute path)

/-- The content of the file at a path. -/
def read? (workplace : Workplace) (tree : FileTree) (path : String) : Option ByteArray := do
  tree.contentAt? (← workplace.locate? tree path)

/-- The text of the file at a path, which has to be UTF-8. -/
def readText? (workplace : Workplace) (tree : FileTree) (path : String) : Option String := do
  String.fromUTF8? (← workplace.read? tree path)

def isFile (workplace : Workplace) (tree : FileTree) (path : String) : Bool :=
  (workplace.read? tree path).isSome

end Workplace

end ModelLint
