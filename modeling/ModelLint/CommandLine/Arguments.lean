import ModelLint.Text.Search

namespace ModelLint.CommandLine

open ModelLint.Text

/-! The arguments of the program.

Options stand before or behind the name of a command. Those before it are the ones
that every command has. An option is written long, as `--format json` or
`--format=json`, or short, as `-f json`, `-fjson` or `-f=json`; several short ones may
share a hyphen. Behind two hyphens nothing is an option any more. -/

inductive Switch where
  | verbose
  | config
  | format
  | rules
  | exclude
  | force
  | help
  | version
deriving DecidableEq, Repr, Inhabited

namespace Switch

def long : Switch → String
  | verbose => "verbose"
  | config => "config"
  | format => "format"
  | rules => "rules"
  | exclude => "exclude"
  | force => "force"
  | help => "help"
  | version => "version"

def short? : Switch → Option Char
  | verbose => some 'v'
  | config => some 'c'
  | format => some 'f'
  | rules => none
  | exclude => some 'e'
  | force => none
  | help => some 'h'
  | version => some 'V'

def takesValue : Switch → Bool
  | config | format | rules | exclude => true
  | verbose | force | help | version => false

/-- Whether the option may be given more than once. -/
def isRepeatable : Switch → Bool
  | exclude => true
  | _ => false

end Switch

/-- The form in which violations are printed. -/
inductive Format where
  | text
  | json
  | compact
deriving DecidableEq, Repr, Inhabited

def Format.ofLabel? : String → Option Format
  | "text" => some text
  | "json" => some json
  | "compact" => some compact
  | _ => none

/-- The values that an option takes. -/
def Switch.accepts (value : String) : Switch → Bool
  | .config => value ≠ ""
  | .format => (Format.ofLabel? value).isSome
  | _ => true

inductive CommandName where
  | check
  | listRules
  | init
deriving DecidableEq, Repr, Inhabited

namespace CommandName

def ofLabel? : String → Option CommandName
  | "check" => some check
  | "list-rules" => some listRules
  | "init" => some init
  | _ => none

/-- The options behind the name of a command. -/
def switches : CommandName → List Switch
  | check => [.verbose, .config, .format, .rules, .exclude, .help]
  | listRules => [.verbose, .config, .help]
  | init => [.verbose, .config, .force, .help]

def takesOperand : CommandName → Bool
  | check => true
  | listRules | init => false

end CommandName

/-- The options before the name of a command. -/
def commonSwitches : List Switch :=
  [.verbose, .config, .help, .version]

/-- Why no command is carried out. -/
inductive Stop where
  | help
  | version
  /-- The arguments make no sense. -/
  | usage
deriving DecidableEq, Repr, Inhabited

/-- What was found on one side of the name of a command. -/
structure Given where
  /-- The options with their values, last one first. -/
  switches : List (Switch × String) := []
  operand : Option String := none
deriving DecidableEq, Repr, Inhabited

namespace Given

def value? (given : Given) (switch : Switch) : Option String :=
  given.switches.lookup switch

def has (given : Given) (switch : Switch) : Bool :=
  (given.value? switch).isSome

/-- The values of an option that may be repeated, first one first. -/
def values (given : Given) (switch : Switch) : List String :=
  (given.switches.reverse.filter (·.1 = switch)).map (·.2)

/-- Adds an option. -/
def add (given : Given) (switch : Switch) (value : String) : Except Stop Given :=
  match switch with
  | .help => .error .help
  | .version => .error .version
  | _ =>
      if (given.has switch && !switch.isRepeatable) || !switch.accepts value then .error .usage
      else .ok { given with switches := (switch, value) :: given.switches }

/-- Adds an operand, of which there is one at most. -/
def addOperand (given : Given) (allowed : Bool) (value : String) : Except Stop Given :=
  if allowed ∧ given.operand.isNone ∧ value ≠ "" then .ok { given with operand := some value }
  else .error .usage

end Given

/-- Takes an option behind two hyphens. If it still lacks its value, it is given back. -/
def takeLong (known : List Switch) (given : Given) (body : List Char) :
    Except Stop (Given × Option Switch) :=
  let (name, value) := match cut? '=' body with
    | some (name, value) => (name, some (String.ofList value))
    | none => (body, none)
  match known.find? (·.long = String.ofList name), value with
  | none, _ => .error .usage
  | some switch, some value =>
      if switch.takesValue then return (← given.add switch value, none) else .error .usage
  | some switch, none =>
      if switch.takesValue then .ok (given, some switch) else return (← given.add switch "", none)

/-- Takes the options that share a hyphen. If the last one still lacks its value, it is
given back. -/
def takeShort (known : List Switch) : Given → List Char → Except Stop (Given × Option Switch)
  | given, [] => .ok (given, none)
  | given, c :: rest =>
      match known.find? (·.short? = some c) with
      | none => .error .usage
      | some switch =>
          if !switch.takesValue then do takeShort known (← given.add switch "") rest
          else match rest with
            | [] => .ok (given, some switch)
            | '=' :: value => return (← given.add switch (String.ofList value), none)
            | value => return (← given.add switch (String.ofList value), none)

/-- What an argument looks like. -/
inductive Shape where
  /-- Two hyphens. -/
  | divider
  | long (body : List Char)
  | short (body : List Char)
  | plain
deriving DecidableEq, Repr, Inhabited

def shapeOf (argument : String) : Shape :=
  match argument.toList with
  | ['-', '-'] => .divider
  | '-' :: '-' :: body => .long body
  | ['-'] => .plain
  | '-' :: body => .short body
  | _ => .plain

/-- Reads the arguments behind the name of a command. An option that lacks its value is
`pending`; behind a divider everything is an operand. -/
def readCommand (name : CommandName) :
    (pending : Option Switch) → (divided : Bool) → Given → List String → Except Stop Given
  | none, _, given, [] => .ok given
  | some _, _, _, [] => .error .usage
  | pending, divided, given, argument :: rest =>
      if divided then do
        readCommand name pending true (← given.addOperand name.takesOperand argument) rest
      else match shapeOf argument, pending with
        | .plain, some switch => do readCommand name none false (← given.add switch argument) rest
        | _, some _ => .error .usage
        | .divider, none => readCommand name none true given rest
        | .long body, none => do
            let (given, pending) ← takeLong name.switches given body
            readCommand name pending false given rest
        | .short body, none => do
            let (given, pending) ← takeShort name.switches given body
            readCommand name pending false given rest
        | .plain, none => do
            readCommand name none false (← given.addOperand name.takesOperand argument) rest

/-- The arguments of a program: what stands before the name of the command, the name, and
what stands behind it. -/
structure Arguments where
  common : Given
  name : CommandName
  own : Given
deriving DecidableEq, Repr, Inhabited

/-- What asking for help on a command leads to. -/
def stopAtHelp : List String → Stop
  | [] => .help
  | [topic] => if topic = "help" ∨ (CommandName.ofLabel? topic).isSome then .help else .usage
  | _ => .usage

/-- Reads the arguments up to the name of a command, and then the others. -/
def readAll : (pending : Option Switch) → Given → List String → Except Stop Arguments
  | _, _, [] => .error .usage
  | pending, given, argument :: rest =>
      match shapeOf argument, pending with
      | .plain, some switch => do readAll none (← given.add switch argument) rest
      | _, some _ => .error .usage
      | .divider, none => .error .usage
      | .long body, none => do
          let (given, pending) ← takeLong commonSwitches given body
          readAll pending given rest
      | .short body, none => do
          let (given, pending) ← takeShort commonSwitches given body
          readAll pending given rest
      | .plain, none =>
          if argument = "help" then .error (stopAtHelp rest)
          else match CommandName.ofLabel? argument with
            | none => .error .usage
            | some name => do return ⟨given, name, ← readCommand name none false {} rest⟩

inductive Command where
  | check (path : Option String) (format : Format) (rules : Option String) (exclude : List String)
  | listRules
  | init (force : Bool)
deriving DecidableEq, Repr, Inhabited

/-- A command with the options that every command has. -/
structure Invocation where
  verbose : Bool
  /-- Path of the configuration file, if one is named. -/
  config : Option String
  command : Command
deriving DecidableEq, Repr, Inhabited

namespace Arguments

def command (arguments : Arguments) : Command :=
  let own := arguments.own
  match arguments.name with
  | .check =>
      .check own.operand (((own.value? .format).bind Format.ofLabel?).getD .text)
        (own.value? .rules) (own.values .exclude)
  | .listRules => .listRules
  | .init => .init (own.has .force)

/-- The configuration file named behind the command counts before the one named in front
of it, and that before the one that the environment names. -/
def invocation (arguments : Arguments) (environmentConfig : Option String) : Invocation where
  verbose := arguments.common.has .verbose || arguments.own.has .verbose
  config := (arguments.own.value? .config).or
    ((arguments.common.value? .config).or environmentConfig)
  command := arguments.command

end Arguments

/-- Whether the arguments name a configuration file on both sides of the command. -/
def Arguments.nameConfigTwice (arguments : Arguments) : Bool :=
  arguments.common.has .config && arguments.own.has .config

/-- What the arguments ask for. The environment stands in for the configuration file on
each side of the command where none is named, and there it must not be the empty path. -/
def Invocation.parse (environmentConfig : Option String) (arguments : List String) :
    Except Stop Invocation := do
  let arguments ← readAll none {} arguments
  if environmentConfig = some "" && !arguments.nameConfigTwice then .error .usage
  else .ok (arguments.invocation environmentConfig)

end ModelLint.CommandLine
