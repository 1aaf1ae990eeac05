import ModelLint.Descriptor
import ModelLint.Toml.Reader

namespace ModelLint

open ModelLint.Toml (Value)

/-! The configuration of an analysis. -/

structure RuleBlock where
  enabled : Option Bool := none
  severity : Option Severity := none
  options : List (String × Value) := []
deriving Repr, Inhabited

/-- Which files are looked at. -/
structure Scope where
  root : String := "."
  /-- Patterns of paths that are left out. -/
  exclude : List String := []
  respectGitignore : Bool := true
deriving DecidableEq, Repr, Inhabited

/-- The scope of a configuration that says nothing about it. -/
def Scope.unspecified : Scope where
  exclude := ["**/.alpackages/**"]

structure Config where
  preset : Option String := none
  /-- Severity from which on findings make a run fail. -/
  failOn : Option String := none
  scope : Scope := Scope.unspecified
  /-- Options of rules, by their code or name. -/
  rules : List (String × RuleBlock) := []
deriving Repr, Inhabited

inductive ConfigError where
  | unreadable
  | malformed
  /-- A value that has the right type and still cannot be taken. -/
  | invalid (key : String) (reason : String)
deriving DecidableEq, Repr, Inhabited

/-- The text of an error. How an unreadable or malformed file is wrong is not told. -/
def ConfigError.message : ConfigError → String
  | unreadable => "Failed to read config file"
  | malformed => "Failed to parse config"
  | invalid key reason => "Invalid value for `" ++ key ++ "`: " ++ reason

namespace RuleBlock

def boolean (block : RuleBlock) (key : String) (default : Bool) : Bool :=
  ((block.options.lookup key).bind Value.boolean?).getD default

def integer (block : RuleBlock) (key : String) (default : Int) : Int :=
  ((block.options.lookup key).bind Value.integer?).getD default

def string (block : RuleBlock) (key : String) (default : String) : String :=
  ((block.options.lookup key).bind Value.string?).getD default

end RuleBlock

namespace Config

/-- Reads an entry that stands for `default` when it is missing. -/
def entry? {α : Type} (entries : List (String × Value)) (key : String) (default : α)
    (read : Value → Option α) : Option α :=
  match entries.lookup key with
  | some value => read value
  | none => some default

/-- A severity is written as its label, or as a table with the label as its only key
and nothing under it. -/
def severity? : Value → Option Severity
  | .string label => Severity.ofLabel? label
  | .table [(label, .table [])] => Severity.ofLabel? label
  | .table [(label, .array [])] => Severity.ofLabel? label
  | _ => none

/-- The entries of a table, or the items of an array under the given names. -/
def record? (names : List String) : Value → Option (List (String × Value))
  | .array items => some (names.zip items)
  | value => value.entries?

def scope? (value : Value) : Option Scope := do
  let entries ← record? ["root", "exclude", "respect_gitignore"] value
  return {
    root := ← entry? entries "root" "." Value.string?
    exclude := ← entry? entries "exclude" [] (Value.listOf? Value.string?)
    respectGitignore := ← entry? entries "respect_gitignore" true Value.boolean? }

/-- The date that a string spells, provided nothing stands beside it. -/
def date? : Value → (beside : List (String × Value)) → Option Value
  | .string text, [] =>
      (Toml.dateTime? .lax text.toList).map fun normal => .datetime (String.ofList normal)
  | _, _ => none

mutual

/-- The value of an option. A table that starts with the text of a date is that date, and
must hold nothing else. -/
def option? : Value → Option Value
  | .array items => (options? items).map .array
  | .table ((key, value) :: rest) =>
      if key = Value.dateKey then date? value rest
      else do return .table ((key, ← option? value) :: (← entries? rest))
  | value => some value

def options? : List Value → Option (List Value)
  | [] => some []
  | value :: rest => do return (← option? value) :: (← options? rest)

/-- The values of some options, by their keys. -/
def entries? : List (String × Value) → Option (List (String × Value))
  | [] => some []
  | (key, value) :: rest => do return (key, ← option? value) :: (← entries? rest)

end

def ruleBlock? (value : Value) : Option RuleBlock := do
  let entries ← value.entries?
  let options := entries.filter fun entry => entry.1 ≠ "enabled" && entry.1 ≠ "severity"
  return {
    enabled := ← entry? entries "enabled" none fun value => value.boolean?.map some
    severity := ← entry? entries "severity" none fun value => (severity? value).map some
    options := ← entries? options }

def rules? (value : Value) : Option (List (String × RuleBlock)) := do
  (← value.entries?).mapM fun (key, block) => return (key, ← ruleBlock? block)

def ofToml? (entries : List (String × Value)) : Option Config := do
  return {
    preset := ← entry? entries "preset" none fun value => value.string?.map some
    failOn := ← entry? entries "fail_on" none fun value => value.string?.map some
    scope := ← entry? entries "analyzer" Scope.unspecified scope?
    rules := ← entry? entries "rules" [] rules? }

/-- Reads a configuration file. -/
def parse (text : String) : Except ConfigError Config :=
  match (Toml.parse? text).bind ofToml? with
  | some config => .ok config
  | none => .error .malformed

/-- The block for a rule, under its code or its name. -/
def blockFor? (config : Config) (rule : Descriptor) : Option RuleBlock :=
  (config.rules.find? fun entry => rule.answersTo entry.1).map (·.2)

/-- Rules are enabled unless their block says otherwise. -/
def isEnabled (config : Config) (rule : Descriptor) : Bool :=
  ((config.blockFor? rule).bind (·.enabled)).getD true

/-- The severity that replaces the rule's own. -/
def severityOf? (config : Config) (rule : Descriptor) : Option Severity :=
  (config.blockFor? rule).bind (·.severity)

/-- The severity of a rule's findings. -/
def severityOf (config : Config) (rule : Descriptor) : Severity :=
  (config.severityOf? rule).getD rule.severity

/-- The severity from which on findings make a run fail. -/
def failSeverity (config : Config) : Except ConfigError Severity :=
  match config.failOn with
  | none => .ok .error
  | some text => (Severity.parse text).mapError (ConfigError.invalid "fail_on")

end Config

end ModelLint
