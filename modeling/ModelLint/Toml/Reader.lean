import ModelLint.Toml.Quoted
import ModelLint.Toml.Scalar
import ModelLint.Toml.Table

namespace ModelLint.Toml

/-! Reading a TOML document. -/

def skipSpace (text : List Char) : List Char :=
  text.dropWhile isSpace

/-- Passes over blanks, line breaks and comments. -/
def skipLines : (inComment : Bool) → List Char → List Char
  | _, [] => []
  | _, '\n' :: rest => skipLines false rest
  | _, '\r' :: '\n' :: rest => skipLines false rest
  | inComment, c :: rest =>
      if inComment ∧ isLineChar c then skipLines true rest
      else if !inComment ∧ isSpace c then skipLines false rest
      else if !inComment ∧ c = '#' then skipLines true rest
      else c :: rest

/-- What stands behind a line break, or nothing at the end of the text. -/
def lineBreak? : List Char → Option (List Char)
  | [] => some []
  | '\n' :: rest => some rest
  | '\r' :: '\n' :: rest => some rest
  | _ => none

/-- Passes over the rest of a line, which holds blanks and a comment at most. -/
def endLine? (text : List Char) : Option (List Char) :=
  match skipSpace text with
  | '#' :: rest => lineBreak? (rest.dropWhile isLineChar)
  | rest => lineBreak? rest

/-- The characters of a key that is not quoted. -/
def isBareKeyChar (c : Char) : Bool :=
  c.isAlphanum || c = '_' || c = '-'

def keyName? : List Char → Option (String × List Char)
  | '"' :: rest => oneLine? '"' true rest
  | '\'' :: rest => oneLine? '\'' false rest
  | text =>
      match text.span isBareKeyChar with
      | ([], _) => none
      | (name, rest) => some (String.ofList name, rest)

/-- The names of a key, parted by dots: at most as many as the limit says. -/
def keyNames? : (limit : Nat) → List Char → Option (List String × List Char)
  | 0, _ => none
  | limit + 1, text => do
      let (name, behind) ← keyName? (skipSpace text)
      match skipSpace behind with
      | '.' :: rest =>
          let (names, behind) ← keyNames? limit rest
          return (name :: names, behind)
      | rest => return ([name], rest)

/-- The deepest nesting of tables and arrays that a document may have. -/
def nestingLimit : Nat := 79

def key? (text : List Char) : Option (Key × List Char) := do
  let (names, behind) ← keyNames? nestingLimit text
  return (⟨names.dropLast, ← names.getLast?⟩, behind)

/-- The characters of a value that is written as a word. -/
def isWordChar (c : Char) : Bool :=
  c.isAlphanum || c ∈ ['_', '-', '+', '.', ':']

/-- The longest word at the start of a text. A blank between a date and a time belongs
to it. -/
def word (text : List Char) : List Char × List Char :=
  let (first, rest) := text.span isWordChar
  match rest with
  | ' ' :: c :: _ =>
      if isDate first ∧ c.isDigit then
        let (time, behind) := rest.tail.span isWordChar
        (first ++ ' ' :: time, behind)
      else (first, rest)
  | _ => (first, rest)

/-- A value or text read, with the text behind it. -/
abbrev Reading (α : Type) := List Char → Option (α × List Char)

/-- The items of an array behind its opening bracket. Each item leaves less to read, so
the length of the text bounds their number. -/
def items? (value? : Reading Value) : (bound : Nat) → Reading (List Value)
  | 0, _ => none
  | bound + 1, text =>
      match skipLines false text with
      | ']' :: rest => some ([], rest)
      | start => do
          let (value, behind) ← value? start
          match skipLines false behind with
          | ']' :: rest => return ([value], rest)
          | ',' :: rest =>
              let (values, behind) ← items? value? bound rest
              return (value :: values, behind)
          | _ => none

/-- A key, an equals sign and a value. -/
def pair? (value? : Reading Value) : Reading (Key × Value) := fun text => do
  let (key, behindKey) ← key? text
  match behindKey with
  | '=' :: rest =>
      let (value, behind) ← value? (skipSpace rest)
      return ((key, value), behind)
  | _ => none

/-- The pairs of a table behind its opening brace, of which there is at least one. -/
def pairs? (value? : Reading Value) : (bound : Nat) → Reading (List (Key × Value))
  | 0, _ => none
  | bound + 1, text => do
      let (pair, behind) ← pair? value? text
      match skipSpace behind with
      | '\x7d' :: rest => return ([pair], rest)
      | ',' :: rest =>
          let (pairs, behind) ← pairs? value? bound rest
          return (pair :: pairs, behind)
      | _ => none

/-- A table in braces, behind the opening one. -/
def inlineTable? (value? : Reading Value) : Reading Value := fun text => do
  match skipSpace text with
  | '\x7d' :: rest => return (.table [], rest)
  | start =>
      let (pairs, behind) ← pairs? value? start.length start
      return (← tableOf? pairs, behind)

/-- A value that may hold arrays and tables down to the given depth. -/
def value? : (depth : Nat) → Reading Value
  | _, '"' :: '"' :: '"' :: rest =>
      (manyLines? '"' true rest).map fun (text, behind) => (.string text, behind)
  | _, '"' :: rest => (oneLine? '"' true rest).map fun (text, behind) => (.string text, behind)
  | _, '\'' :: '\'' :: '\'' :: rest =>
      (manyLines? '\'' false rest).map fun (text, behind) => (.string text, behind)
  | _, '\'' :: rest => (oneLine? '\'' false rest).map fun (text, behind) => (.string text, behind)
  | depth + 1, '[' :: rest =>
      (items? (value? depth) rest.length rest).map fun (items, behind) => (.array items, behind)
  | depth + 1, '\x7b' :: rest => inlineTable? (value? depth) rest
  | _, text =>
      let (first, behind) := word text
      (scalar? first).map fun value => (value, behind)

/-- A header behind its opening brackets, with the brackets that have to close it. -/
def header? (closing : List Char) : Reading Key := fun text => do
  let (key, behindKey) ← key? text
  return (key, ← endLine? (← Text.after? closing behindKey))

/-- The statement at the start of a text, with the text behind its line. -/
def statement? : Reading Statement
  | '[' :: '[' :: rest => (header? [']', ']'] rest).map fun (key, behind) => (.tables key, behind)
  | '[' :: rest => (header? [']'] rest).map fun (key, behind) => (.table key, behind)
  | text => do
      let ((key, value), behind) ← pair? (value? nestingLimit) text
      return (.assign key value, ← endLine? behind)

/-- The statements of a text. Each of them, and each line without one, leaves less to
read, so the length of the text bounds their number. -/
def statementsWithin : (bound : Nat) → List Char → Option (List Statement)
  | 0, text => if (skipLines false text).isEmpty then some [] else none
  | bound + 1, text =>
      match skipLines false text with
      | [] => some []
      | start => do
          let (statement, behind) ← statement? start
          return statement :: (← statementsWithin bound behind)

/-- What stands behind a byte order mark at the start of a text. -/
def dropByteOrderMark : List Char → List Char
  | '\uFEFF' :: rest => rest
  | text => text

/-- Reads a document: the entries of its top table. -/
def parse? (text : String) : Option (List (String × Value)) := do
  let chars := dropByteOrderMark text.toList
  documentOf? (← statementsWithin chars.length chars)

end ModelLint.Toml
