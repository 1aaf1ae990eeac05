import ModelLint.CommandLine.Session

namespace ModelLint.CommandLine

/-! The program itself: it reads the files that a command may look at, carries the command
out, and prints and writes what comes of it. -/

/-- Adds a file to a tree, if it is there and can be read. -/
def addFile (tree : FileTree) (path : String) : IO FileTree := do
  try
    let content ← IO.FS.readBinFile path
    return tree.put (FileTree.routeOf path) content
  catch _ => return tree

/-- Adds some files to a tree. -/
def addFiles (tree : FileTree) (paths : List String) : IO FileTree :=
  paths.foldlM addFile tree

/-- The files that are looked for in every directory. -/
def sideFiles : List String :=
  ProjectSettings.fileNames ++ Ignore.fileNames true ++
    [Ignore.repositoryEntry, "/".intercalate (Ignore.repositoryEntry :: Ignore.excludeWay)]

/-- Adds the files to which the link of a working tree leads. -/
def addLinked (workplace : Workplace) (tree : FileTree) (link : String) : IO FileTree := do
  match Ignore.firstLine tree workplace link with
  | .text line =>
      let named := (Ignore.namedDirectory? line).toList
      let grown ← addFiles tree (named.map fun path => workplace.absolute (Ignore.commonFile path))
      match Ignore.excludeOfLink grown workplace link with
      | .at path => addFile grown (workplace.absolute path)
      | _ => return grown
  | _ => return tree

/-- Adds a directory to a tree, with the files that are looked for in every directory. -/
def addDirectory (workplace : Workplace) (tree : FileTree) (directory : String) : IO FileTree := do
  let grown ← addFiles (tree.addDirectory (FileTree.routeOf directory))
    (sideFiles.map (Path.join directory))
  addLinked workplace grown (Path.join directory Ignore.repositoryEntry)

/-- Adds the ignore file of the user to a tree, with the settings that name it. -/
def addPersonal (workplace : Workplace) (tree : FileTree) : IO FileTree := do
  let grown ← addFiles tree ((Ignore.settingsFiles workplace).map workplace.absolute)
  addFiles grown ((Ignore.personalPath? grown workplace).map workplace.absolute).toList

/-- Adds the model files below a directory to a tree, and all that decides about them. -/
partial def addBelow (workplace : Workplace) (tree : FileTree) (directory : String) :
    IO FileTree := do
  let mut grown ← addDirectory workplace tree directory
  for entry in ← (System.mkFilePath [directory]).readDir do
    let path := Path.join directory entry.fileName
    if (← entry.path.symlinkMetadata).type == .dir then grown ← addBelow workplace grown path
    else if path.endsWith Discovery.suffix then grown ← addFile grown path
  return grown

/-- Adds what lies at a path to a tree. -/
def addRoot (workplace : Workplace) (tree : FileTree) (root : String) : IO FileTree := do
  if ← (System.mkFilePath [root]).isDir then addBelow workplace tree root else addFile tree root

/-- The directories above the sources of the models in a tree. -/
def sourceDirectories (tree : FileTree) (root : String) : List String :=
  (tree.files.filterMap fun (_, content) => do
    let text ← String.fromUTF8? content
    let model ← (Model.read text).toOption
    return Path.ancestors (Path.join root model.filePath)).flatten.eraseDups

/-- Adds the files that an analysis from the given root may look at. -/
def addAnalyzed (workplace : Workplace) (tree : FileTree) (root : String) : IO FileTree := do
  let above ← (Path.ancestors root).foldlM (addDirectory workplace) (← addPersonal workplace tree)
  let below ← addRoot workplace above root
  addFiles below ((sourceDirectories below root).flatMap fun directory =>
    ProjectSettings.fileNames.map (Path.join directory))

/-- Adds the files that a command may look at. -/
def load (surroundings : Surroundings) (invocation : Invocation) : IO Surroundings := do
  let candidates := (invocation.config.toList ++ surroundings.projectConfigs ++
    surroundings.sharedConfig?.toList).map (surroundings.absolute ·)
  let workplace := surroundings.toWorkplace
  let start ← addDirectory workplace surroundings.tree surroundings.workingDirectory
  let configured := { surroundings with tree := ← addFiles start candidates }
  let source := configured.configSource invocation.config
  match invocation.command, configured.loadConfig source with
  | .check path _ _ _, .ok config =>
      let root := surroundings.absolute (path.getD config.scope.root)
      return { configured with tree := ← addAnalyzed workplace configured.tree root }
  | _, _ => return configured

/-- Prints a reply, writes the file that it holds, and gives back its code. -/
def deliver (reply : Reply) : IO UInt32 := do
  IO.eprint reply.remarks
  if let some (path, text) := reply.written then
    IO.FS.writeFile path text
  IO.print reply.output
  return UInt32.ofNat reply.code

end ModelLint.CommandLine

open ModelLint.CommandLine in
/-- Runs the program. -/
def main (arguments : List String) : IO UInt32 := do
  let surroundings : Surroundings := {
    tree := {}
    workingDirectory := (← IO.currentDir).toString
    configFile := ← IO.getEnv "CITAL_LINT_CONFIG"
    configDirectory := ← IO.getEnv "CITAL_LINT_CONFIG_DIR"
    home := ← IO.getEnv "HOME"
    settingsDirectory := ← IO.getEnv "XDG_CONFIG_HOME"
    repositorySettings := ← IO.getEnv "GIT_CONFIG_GLOBAL" }
  match Invocation.parse surroundings.configFile arguments with
  | .ok invocation => deliver (carryOut (← load surroundings invocation) invocation)
  | .error _ => deliver (run surroundings arguments)
