import ModelLint.Text.Digits

namespace ModelLint.CommandLine

open ModelLint.Text

/-! Notices: what the program tells about its work while it goes on.

A notice may repeat text that the user gave. Characters in it that could command a
terminal are spelled out; line breaks and tabs stay. -/

inductive Notice where
  /-- There is no configuration file. -/
  | defaultConfig
  /-- A configuration file is used. -/
  | config (path : String)
  /-- The configuration for all projects is used. -/
  | sharedConfig (path : String)
  /-- No rule has this name. -/
  | unknownRule (name : String)
  /-- An analysis starts. -/
  | analysis (root : String) (rules : Nat)
deriving DecidableEq, Repr, Inhabited

namespace Notice

/-- The characters of ASCII that are spelled out: bell, backspace, form feed, escape and
delete. -/
def commands : List Char :=
  ['\x07', '\x08', '\x0c', '\x1b', '\x7f']

/-- A character as it stands in a notice. -/
def spell (c : Char) : List Char :=
  let digits := [hexDigit (c.toNat / 16), hexDigit (c.toNat % 16)]
  if c ∈ commands then '\\' :: 'x' :: digits
  else if 0x80 ≤ c.toNat ∧ c.toNat ≤ 0x9f then '\\' :: 'u' :: '\x7b' :: digits ++ ['\x7d']
  else [c]

def message : Notice → String
  | defaultConfig => "No config file found, using defaults"
  | config path => "Using config: " ++ path
  | sharedConfig path => "Using global config: " ++ path
  | unknownRule name => "Unknown rule: " ++ name
  | analysis root rules =>
      "Analyzing " ++ root ++ " with " ++ String.ofList (digitsOf rules) ++ " rules"

/-- How much a notice matters. -/
inductive Weight where
  /-- Shown only on demand. -/
  | detail
  | information
  | warning
deriving DecidableEq, Repr, Inhabited

def weight : Notice → Weight
  | defaultConfig | config _ => .detail
  | sharedConfig _ | analysis _ _ => .information
  | unknownRule _ => .warning

/-- What is shown before a notice of this weight. -/
def Weight.label : Weight → String
  | detail => "DEBUG "
  | information => " INFO "
  | warning => " WARN "

def text (notice : Notice) : String :=
  notice.weight.label ++ String.ofList (notice.message.toList.flatMap spell)

end Notice

end ModelLint.CommandLine
