import ModelLint.Catalog
import ModelLint.CommandLine.Arguments
import ModelLint.Report

namespace ModelLint.CommandLine

/-! What the program prints. -/

inductive Colour where
  | red
  | yellow
  | blue
  | green
deriving DecidableEq, Repr, Inhabited

/-- The sequence that turns a colour on. -/
def Colour.on : Colour → String
  | red => "\x1b[31m"
  | yellow => "\x1b[33m"
  | blue => "\x1b[34m"
  | green => "\x1b[32m"

def Colour.paint (colour : Colour) (text : String) : String :=
  colour.on ++ text ++ "\x1b[0m"

def severityColour : Severity → Colour
  | .error => .red
  | .warning => .yellow
  | .info => .blue

/-- The summary has the colour of the gravest findings there are; information counts for
none. -/
def summaryColour (report : Report) : Colour :=
  if 0 < report.count .error then .red
  else if 0 < report.count .warning then .yellow
  else .green

def colouredViolation (violation : Violation) : String :=
  violation.code ++ " " ++ violation.rule ++ " at " ++ violation.location.text ++ "\n  " ++
    (severityColour violation.severity).paint violation.severity.label ++ ": " ++
    violation.message ++ "\n" ++
    (match violation.help with
    | some help => "  = help: " ++ help ++ "\n"
    | none => "") ++ "\n"

def printed (report : Report) : Format → String
  | .text =>
      String.join (report.violations.map colouredViolation) ++
        (summaryColour report).paint report.summary ++ "\n"
  | .json => Json.write .spread report.toJson ++ "\n"
  | .compact => String.join (report.violations.map fun violation => violation.line ++ "\n")

/-- A text followed by blanks up to a width. -/
def padded (width : Nat) (text : String) : String :=
  text ++ String.ofList (List.replicate (width - text.toList.length) ' ')

def tableRow (code name category title : String) : String :=
  padded 9 code ++ " " ++ padded 30 name ++ " " ++ padded 12 category ++ " " ++ title ++ "\n"

def ruleList (rules : List Rule) : String :=
  "Available rules:\n\n" ++ tableRow "Code" "Name" "Category" "Description" ++
    String.ofList (List.replicate 100 '-') ++ "\n" ++
    String.join (rules.map fun rule =>
      tableRow rule.descriptor.id rule.descriptor.name rule.descriptor.category
        rule.descriptor.title) ++
    "\nPresets:\n" ++
    "  recommended  - all rules enabled by default (default)\n" ++
    "  strict       - all rules\n" ++
    "  minimal      - CIG0011, CIG0015, CIG0000 (for gradual adoption)\n" ++
    "\nUse --rules to filter specific rules, e.g.:\n" ++
    "  cital-lint check --rules set-load-fields,project-structure\n" ++
    "  cital-lint check --rules CIG0011,CIG0015\n"

def versionText : String :=
  "cital-lint 0.3.0\n"

def helpText : String :=
  "CLI tool for the cital-lint AL convention linter\n\n" ++
    "Usage: cital-lint [OPTIONS] <COMMAND>\n\n" ++
    "Commands:\n" ++
    "  check       Run lint checks\n" ++
    "  list-rules  List available rules\n" ++
    "  init        Initialize configuration file\n" ++
    "  help        Print this message or the help of the given subcommand(s)\n\n" ++
    "Options:\n" ++
    "  -v, --verbose          Enable verbose output\n" ++
    "  -c, --config <CONFIG>  Path to configuration file [env: CITAL_LINT_CONFIG=]\n" ++
    "  -h, --help             Print help\n" ++
    "  -V, --version          Print version\n"

/-- The name of the configuration file of a project. -/
def configName : String := "cital-lint.toml"

/-- The configuration file that a project starts with. -/
def defaultConfig : String :=
  "# cital-lint configuration\n\n" ++
    "# Rule preset: \"recommended\" (default), \"strict\" or \"minimal\"\n" ++
    "preset = \"recommended\"\n\n" ++
    "# Lowest severity that makes `cital-lint check` exit with code 1\n" ++
    "fail_on = \"error\"\n\n" ++
    "[analyzer]\n" ++
    "# Directory holding the *.model.json files dumped by the compiler\n" ++
    "# root = \"./.output/models\"\n\n" ++
    "# Glob patterns to exclude from analysis\n" ++
    "exclude = [\n" ++
    "    \"**/.alpackages/**\",\n" ++
    "    \"**/.snapshots/**\",\n" ++
    "]\n\n" ++
    "# Respect .gitignore files\n" ++
    "respect_gitignore = true\n\n" ++
    "# Rule configurations, keyed by name or code.\n" ++
    "# Each rule can be enabled/disabled and have its severity overridden.\n\n" ++
    "[rules.set-load-fields]\n" ++
    "enabled = true\n" ++
    "# Records reading more distinct fields than this are exempt\n" ++
    "field_threshold = 10\n\n" ++
    "[rules.project-structure]\n" ++
    "enabled = true\n" ++
    "# First namespace segment and affix prefix in AL-Go settings\n" ++
    "organization = \"CIG\"\n\n" ++
    "# [rules.prefer-text-builder]\n" ++
    "# severity = \"info\"\n"

/-- What is printed when the configuration file was written. -/
def createdText (path : String) : String :=
  "Created " ++ path ++ "\n\nNext steps:\n" ++
    "  1. Edit " ++ configName ++ " to configure rules\n" ++
    "  2. Run: cital-lint check <model-dir>\n"

end ModelLint.CommandLine
