import ModelLint.FileTree
import ModelLint.Ignore.Rules
import ModelLint.Workplace

namespace ModelLint.Ignore

/-! The ignore file of the user.

It counts in every directory, behind all other ignore files. The settings of the user may
name it: by a line that gives `excludesfile` a value. The value is one word, with quotes
around it or not, and a tilde in it stands for the home directory. Blanks around the parts
of such a line may be line breaks too. -/

def lineFeed : UInt8 := 10

def quote : UInt8 := 34

/-- Blanks between the parts of a setting: space, tab, line feed, carriage return,
vertical tab and form feed. -/
def isSpace (byte : UInt8) : Bool :=
  byte = 32 || (9 ≤ byte && byte ≤ 13)

def skipSpace (text : List UInt8) : List UInt8 :=
  text.dropWhile isSpace

/-- The small letter for a byte that is a capital letter. -/
def lowerByte (byte : UInt8) : UInt8 :=
  if 65 ≤ byte && byte ≤ 90 then byte + 32 else byte

def settingName : List UInt8 :=
  "excludesfile".toUTF8.toList

/-- What follows the name of the setting and an equals sign. -/
def afterName? (text : List UInt8) : Option (List UInt8) :=
  let start := skipSpace text
  if (start.take settingName.length).map lowerByte = settingName then
    match skipSpace (start.drop settingName.length) with
    | 61 :: rest => some (skipSpace rest)
    | _ => none
  else none

/-- Whether only blanks stand before the end of some line. -/
def reachesLineEnd : List UInt8 → Bool
  | [] => true
  | c :: rest => c = lineFeed || (isSpace c && reachesLineEnd rest)

/-- Whether a value can end here: blanks and a quote may follow it. -/
def endsValue (text : List UInt8) : Bool :=
  reachesLineEnd text ||
    match skipSpace text with
    | c :: rest => c = quote && reachesLineEnd rest
    | [] => false

/-- The shortest word at the start of a text that can be a value. -/
def word? : List UInt8 → Option (List UInt8)
  | [] => none
  | c :: rest =>
      if isSpace c then none
      else if endsValue rest then some [c]
      else (word? rest).map (c :: ·)

/-- The value at the start of a text. A quote in front of it belongs to it only if there is
no value without it. -/
def value? (text : List UInt8) : Option (List UInt8) :=
  match text with
  | c :: rest => if c = quote then (word? (skipSpace rest)).or (word? text) else word? text
  | [] => none

/-- The first value that the settings give. The flag tells whether a line starts here. -/
def setting? : (atStart : Bool) → List UInt8 → Option (List UInt8)
  | _, [] => none
  | atStart, c :: rest =>
      (if atStart then (afterName? (c :: rest)).bind value? else none).or
        (setting? (c = lineFeed) rest)

/-- Puts the home directory in the place of every tilde. -/
def expandTilde (home : Option String) (path : String) : String :=
  match home with
  | some home => String.ofList (path.toList.flatMap fun c => if c = '~' then home.toList else [c])
  | none => path

def pathFromSettings? (tree : FileTree) (workplace : Workplace) (file : String) :
    Option String := do
  let value ← setting? true (← workplace.read? tree file).toList
  return expandTilde workplace.home? (← String.fromUTF8? ⟨value.toArray⟩)

/-- The settings of the user, the weightiest file first. -/
def settingsFiles (workplace : Workplace) : List String :=
  workplace.repositorySettings.toList ++
    (workplace.home?.map (Path.join · ".gitconfig")).toList ++
    (workplace.settingsDirectory?.map (Path.join · "git/config")).toList

/-- The path of the user's ignore file. Without a setting it has its usual place. -/
def personalPath? (tree : FileTree) (workplace : Workplace) : Option String :=
  ((settingsFiles workplace).findSome? (pathFromSettings? tree workplace)).or
    (workplace.settingsDirectory?.map (Path.join · "git/ignore"))

/-- The user's ignore file. -/
def personalFile (tree : FileTree) (workplace : Workplace) : IgnoreFile :=
  (((personalPath? tree workplace).bind (workplace.read? tree)).map IgnoreFile.parse).getD {}

end ModelLint.Ignore
