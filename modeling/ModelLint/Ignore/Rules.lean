import ModelLint.Ignore.Pattern
import ModelLint.Text.Blank
import ModelLint.Text.Search

namespace ModelLint.Ignore

open ModelLint.Text

/-! Ignore files.

A line of an ignore file says which files and directories below the directory of the
file are passed over, or, behind an exclamation mark, which are not. The last line
that fits decides. -/

structure IgnoreRule where
  pattern : Pattern
  /-- Whether what fits is kept. -/
  keeps : Bool
  /-- Whether only directories fit. -/
  directoriesOnly : Bool
deriving Repr, Inhabited

inductive Line where
  /-- A blank line or a comment. -/
  | nothing
  | broken
  | rule (rule : IgnoreRule)
deriving Repr, Inhabited

/-- The rule of a line, if it has one. -/
def Line.rule? : Line → Option IgnoreRule
  | .rule found => some found
  | _ => none

def Line.isBroken : Line → Bool
  | .broken => true
  | _ => false

/-- Drops the blanks at the end of a line, unless the last one is escaped. -/
def trimLine (line : List Char) : List Char :=
  if (before? ['\\', ' '] line).isSome then line else trimRight line

/-- Parts the marks at the start of a line from its pattern: whether the line keeps what
fits, and whether the pattern starts at the directory of the file. -/
def splitMarks : List Char → Bool × Bool × List Char
  | '\\' :: '!' :: rest => (false, false, '!' :: rest)
  | '\\' :: '#' :: rest => (false, false, '#' :: rest)
  | '!' :: '/' :: rest => (true, true, rest)
  | '!' :: rest => (true, false, rest)
  | '/' :: rest => (false, true, rest)
  | line => (false, false, line)

/-- Parts the slash at the end of a pattern from it. A backslash before it goes too. -/
def splitSlash (pattern : List Char) : Bool × List Char :=
  match before? ['/'] pattern with
  | some body => (true, (before? ['\\'] body).getD body)
  | none => (false, pattern)

/-- A pattern without a slash fits in every directory below. -/
def withDepth (isAnchored : Bool) (pattern : List Char) : List Char :=
  if isAnchored ∨ '/' ∈ pattern ∨ pattern = ['*', '*'] then pattern
  else '*' :: '*' :: '/' :: pattern

/-- A pattern that ends in a double star fits what lies in a directory and not the
directory itself. -/
def withContents (pattern : List Char) : List Char :=
  if (before? ['/', '*', '*'] pattern).isSome then pattern ++ ['/', '*'] else pattern

def Line.parse (line : List Char) : Line :=
  if line.head? = some '#' then .nothing
  else
    let trimmed := trimLine line
    if trimmed.isEmpty then .nothing
    else
      let (keeps, isAnchored, marked) := splitMarks trimmed
      let (directoriesOnly, body) := splitSlash marked
      match Pattern.parse? (withContents (withDepth isAnchored body)) with
      | some pattern => .rule ⟨pattern, keeps, directoriesOnly⟩
      | none => .broken

/-- The lines of a file. A carriage return before a line feed does not count. -/
def splitLines (content : List UInt8) : List (List UInt8) :=
  match content with
  | [] => [[]]
  | 13 :: 10 :: rest => [] :: splitLines rest
  | 10 :: rest => [] :: splitLines rest
  | c :: rest =>
      match splitLines rest with
      | [] => [[c]]
      | line :: lines => (c :: line) :: lines

/-- The lines up to the first one that is not text. -/
def lineTexts : List (List UInt8) → List (List Char)
  | [] => []
  | bytes :: rest =>
      match String.fromUTF8? ⟨bytes.toArray⟩ with
      | some text => text.toList :: lineTexts rest
      | none => []

/-- Drops the byte order marks at the start of a file. -/
def dropByteOrderMarks : List (List Char) → List (List Char)
  | [] => []
  | first :: rest => first.dropWhile (· = '\uFEFF') :: rest

structure IgnoreFile where
  rules : List IgnoreRule := []
  /-- Whether every line could be used. -/
  isSound : Bool := true
deriving Repr, Inhabited

namespace IgnoreFile

/-- Reads an ignore file. A broken line does not count, but a pattern that nests too
deep spoils the whole file. -/
def parse (content : ByteArray) : IgnoreFile :=
  let lines := (dropByteOrderMarks (lineTexts (splitLines content.toList))).map Line.parse
  let rules := lines.filterMap Line.rule?
  if rules.any (·.pattern.isTooDeep) then { isSound := false }
  else { rules := rules, isSound := !lines.any Line.isBroken }

/-- Whether the path is kept, according to the last rule that fits. -/
def verdict? (file : IgnoreFile) (path : String) (isDirectory : Bool) : Option Bool :=
  file.rules.reverse.findSome? fun rule =>
    if (!rule.directoriesOnly || isDirectory) && rule.pattern.fits path then some rule.keeps
    else none

end IgnoreFile

end ModelLint.Ignore
