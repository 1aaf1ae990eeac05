import ModelLint.Analysis
import ModelLint.CommandLine.Notice
import ModelLint.CommandLine.Output

namespace ModelLint.CommandLine

open ModelLint.Text

/-! Carrying out a command.

A command is a function of the files and of the few settings it takes from its
surroundings. What it does is a value too: the text it prints, the file it writes and
the code it ends with. -/

structure Surroundings extends Workplace where
  tree : FileTree
  /-- Configuration file named by the environment. -/
  configFile : Option String := none
  /-- Directory of the configuration for all projects, named by the environment. -/
  configDirectory : Option String := none
deriving Inhabited

/-- What the program did. -/
structure Reply where
  code : Nat := 0
  output : String := ""
  /-- What was told on the way, first to last. -/
  notices : List Notice := []
  /-- Why the command failed. -/
  error : Option String := none
  /-- Path and text of a file that was written. -/
  written : Option (String × String) := none
deriving DecidableEq, Repr, Inhabited

/-- What the program tells besides its output: the notices, and behind them why the command
failed. -/
def Reply.remarks (reply : Reply) : String :=
  String.join (reply.notices.map fun notice => notice.text ++ "\n") ++
    match reply.error with
    | some message => "Error: " ++ message ++ "\n"
    | none => ""

/-- Why a command fails. -/
inductive CommandError where
  | config (path : String)
  | failSeverity
  | ruleConfig
  | build
  | analysis
  | configExists (path : String)
  | write (path : String)
deriving DecidableEq, Repr, Inhabited

def CommandError.message : CommandError → String
  | config path => "Failed to load config: " ++ path
  | failSeverity => "Invalid configuration"
  | ruleConfig => "Invalid rule configuration"
  | build => "Failed to build analyzer"
  | analysis => "Analysis failed"
  | configExists path =>
      "Configuration file already exists at " ++ path ++ ". Use --force to overwrite."
  | write path => "Failed to write " ++ path

inductive ConfigSource where
  /-- A file that was named; it need not be there. -/
  | named (path : String)
  /-- A file in the project. -/
  | project (path : String)
  /-- A file for all projects. -/
  | shared (path : String)
  /-- There is no file. -/
  | absent
deriving DecidableEq, Repr, Inhabited

namespace ConfigSource

def path? : ConfigSource → Option String
  | named path | project path | shared path => some path
  | absent => none

/-- What is told about the source. -/
def notice : ConfigSource → Notice
  | named path | project path => .config path
  | shared path => .sharedConfig path
  | absent => .defaultConfig

end ConfigSource

namespace Surroundings

/-- The names that the configuration file of a project may have, the first one first. -/
def configNames : List String :=
  [configName, ".cital-lint.toml"]

/-- The files of a project that may hold its configuration. -/
def projectConfigs (surroundings : Surroundings) : List String :=
  configNames.map (surroundings.absolute ·)

/-- The file with the configuration for all projects. -/
def sharedConfig? (surroundings : Surroundings) : Option String :=
  (surroundings.configDirectory.or (surroundings.home?.map (Path.join · ".cital-lint"))).map
    (Path.join · "config.toml")

/-- Where the configuration comes from: a file that is named wins over those of the project,
and these win over the one for all projects. -/
def configSource (surroundings : Surroundings) (named : Option String) : ConfigSource :=
  let isThere := surroundings.isFile surroundings.tree
  match named, surroundings.projectConfigs.find? isThere,
      surroundings.sharedConfig?.filter isThere with
  | some path, _, _ => .named path
  | none, some path, _ => .project path
  | none, none, some path => .shared path
  | none, none, none => .absent

/-- Loads the configuration; without a file it is the default one. -/
def loadConfig (surroundings : Surroundings) (source : ConfigSource) :
    Except CommandError Config :=
  match source.path? with
  | none => .ok {}
  | some path =>
      match surroundings.readText? surroundings.tree path with
      | none => .error (.config path)
      | some text => (Config.parse text).mapError fun _ => .config path

end Surroundings

def filterNames (filter : String) : List String :=
  (pieces ',' filter.toList).filterMap fun piece =>
    let name := trim piece
    if name.isEmpty then none else some (String.ofList name)

/-- The rules that a filter names, out of all there are, with their configured options, and
the names that no rule has. -/
def filterRules (config : Config) (settings : SettingsSource) (filter : String) :
    Except ConfigError (List Rule × List String) := do
  let names := filterNames filter
  let available ← { config with preset := some "strict" }.selectRules settings
  let chosen := available.filter fun rule => names.any rule.descriptor.answersTo
  let unknown := names.filter fun name => !available.any (·.descriptor.answersTo name)
  return (chosen, unknown)

/-- The rules to run, and the names in the filter that no rule has. -/
def rulesFor (config : Config) (settings : SettingsSource) (filter : Option String) :
    Except ConfigError (List Rule × List String) :=
  match filter with
  | some filter => filterRules config settings filter
  | none => do return (← config.selectRules settings, [])

/-- What is known after the rules have been chosen. -/
structure Preparation where
  config : Config
  failOn : Severity
  rules : List Rule
  unknownRules : List String
deriving Inhabited

/-- Loads the configuration and chooses the rules. -/
def prepare (surroundings : Surroundings) (source : ConfigSource) (filter : Option String) :
    Except CommandError Preparation := do
  let config ← surroundings.loadConfig source
  let failOn ← config.failSeverity.mapError fun _ => .failSeverity
  let settings := SettingsSource.seenFrom surroundings.toWorkplace surroundings.tree
  let (rules, unknown) ← (rulesFor config settings filter).mapError fun _ => .ruleConfig
  return ⟨config, failOn, rules, unknown⟩

/-- The analysis that the arguments ask for. -/
def Preparation.analysis (preparation : Preparation) (workplace : Workplace)
    (path : Option String) (exclude : List String) : Except CommandError Analysis :=
  let plan : Analysis.Plan := {
    root := path
    rules := preparation.rules
    exclude := exclude
    config := preparation.config }
  (Analysis.ofPlan plan workplace).mapError fun _ => .build

def failed (error : CommandError) (notices : List Notice) : Reply :=
  { code := 1, notices := notices, error := some error.message }

/-- Carries out an analysis. The code tells whether some violation is grave enough. -/
def report (analysis : Analysis) (tree : FileTree) (failOn : Severity) (format : Format)
    (notices : List Notice) : Reply :=
  let told := notices ++ [.analysis analysis.root analysis.rules.length]
  match analysis.checkTree tree false with
  | .error _ => failed .analysis told
  | .ok found => {
      code := if found.reaches failOn then 1 else 0
      output := printed found format
      notices := told }

/-- Checks the model files. -/
def check (surroundings : Surroundings) (named path : Option String) (format : Format)
    (filter : Option String) (exclude : List String) : Reply :=
  let source := surroundings.configSource named
  match prepare surroundings source filter with
  | .error error => failed error [source.notice]
  | .ok preparation =>
      let told := source.notice :: preparation.unknownRules.map .unknownRule
      match preparation.analysis surroundings.toWorkplace path exclude with
      | .error error => failed error told
      | .ok analysis => report analysis surroundings.tree preparation.failOn format told

/-- Writes the configuration file of a project. An existing one is replaced only by
force, and a directory of that name never. -/
def init (surroundings : Surroundings) (force : Bool) : Reply :=
  let path := surroundings.absolute configName
  let isDirectory := (surroundings.tree.locate? path).any surroundings.tree.isDirectory
  if !force && (isDirectory || surroundings.tree.isFile path) then failed (.configExists path) []
  else if isDirectory then failed (.write path) []
  else { output := createdText path, written := some (path, defaultConfig) }

/-- The reply to a command, with all notices. -/
def replyTo (surroundings : Surroundings) (config : Option String) : Command → Reply
  | .check path format rules exclude => check surroundings config path format rules exclude
  | .listRules => { output := ruleList (Catalog.rules (.fixed none)) }
  | .init force => init surroundings force

/-- Carries out an invocation. Details are told only on demand. -/
def carryOut (surroundings : Surroundings) (invocation : Invocation) : Reply :=
  let reply := replyTo surroundings invocation.config invocation.command
  { reply with
    notices := reply.notices.filter fun notice => invocation.verbose || notice.weight ≠ .detail }

/-- Runs the program with some arguments. -/
def run (surroundings : Surroundings) (arguments : List String) : Reply :=
  match Invocation.parse surroundings.configFile arguments with
  | .error .help => { output := helpText }
  | .error .version => { output := versionText }
  | .error .usage => { code := 2 }
  | .ok invocation => carryOut surroundings invocation

end ModelLint.CommandLine
