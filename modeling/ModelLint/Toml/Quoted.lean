import ModelLint.Text.Digits

namespace ModelLint.Toml

open ModelLint.Text

/-! Quoted text.

A quoted text is cut out of its surroundings first. Then its line breaks are
brought to one form, and last its escapes are replaced. -/

/-- The blanks within a line. -/
def isSpace (c : Char) : Bool :=
  c = ' ' || c = '\t'

/-- The characters allowed within a line: no control characters but the tab. -/
def isLineChar (c : Char) : Bool :=
  c = '\t' || (0x20 ≤ c.toNat && c.toNat ≠ 0x7F)

/-- The text up to the closing quote, and the text behind it. With escapes, a quote
behind a backslash closes nothing. -/
def untilQuote? (quote : Char) (escapes : Bool) : List Char → Option (List Char × List Char)
  | [] => none
  | [c] => if c = quote then some ([], []) else none
  | c :: d :: rest =>
      if c = quote then some ([], d :: rest)
      else if escapes ∧ c = '\\' then
        (untilQuote? quote escapes rest).map fun (inside, behind) => (c :: d :: inside, behind)
      else (untilQuote? quote escapes (d :: rest)).map fun (inside, behind) => (c :: inside, behind)

/-- The text up to three closing quotes, and the text behind them. One or two quotes
more, directly before the closing ones, belong to the text. -/
def untilTripleQuote? (quote : Char) (escapes : Bool) :
    List Char → Option (List Char × List Char)
  | [] => none
  | [_] => none
  | c :: d :: rest =>
      let text := c :: d :: rest
      let run := (text.takeWhile (· = quote)).length
      if 3 ≤ run then
        let kept := min (run - 3) 2
        some (List.replicate kept quote, text.drop (kept + 3))
      else if escapes ∧ c = '\\' then
        (untilTripleQuote? quote escapes rest).map fun (inside, behind) =>
          (c :: d :: inside, behind)
      else (untilTripleQuote? quote escapes (d :: rest)).map fun (inside, behind) =>
        (c :: inside, behind)

/-- A text without control characters. Line breaks, where they are allowed, become
single line feeds. -/
def withPlainLines? (lines : Bool) : List Char → Option (List Char)
  | [] => some []
  | '\r' :: '\n' :: rest => if lines then (withPlainLines? lines rest).map ('\n' :: ·) else none
  | c :: rest =>
      if isLineChar c ∨ (lines ∧ c = '\n') then (withPlainLines? lines rest).map (c :: ·) else none

def shortEscape? (letter : Char) : Option Char :=
  [('b', '\x08'), ('t', '\t'), ('n', '\n'), ('f', '\x0c'), ('r', '\r'), ('"', '"'),
    ('\\', '\\')].lookup letter

/-- The character with the code point that some hexadecimal digits spell. -/
def codePoint? (digits : List Char) : Option Char := do
  let value ← digits.foldlM (fun value digit => return value * 16 + (← hexDigit? digit)) 0
  if value.isValidChar then some (Char.ofNat value) else none

/-- Whether nothing but blanks stands before the next line break. -/
def isRestOfLineBlank (text : List Char) : Bool :=
  (text.dropWhile isSpace).head? = some '\n'

/-- Replaces the escapes of a text. A backslash at the end of a line takes the line
break and all blanks and line breaks behind it away, which is what `skipping` is for. -/
def unescape? : (skipping : Bool) → List Char → Option (List Char)
  | _, [] => some []
  | _, ['\\'] => none
  | _, '\\' :: 'u' :: a :: b :: c :: d :: rest => do
      return (← codePoint? [a, b, c, d]) :: (← unescape? false rest)
  | _, '\\' :: 'U' :: a :: b :: c :: d :: e :: f :: g :: h :: rest => do
      return (← codePoint? [a, b, c, d, e, f, g, h]) :: (← unescape? false rest)
  | _, '\\' :: letter :: rest => do
      if isSpace letter ∨ letter = '\n' then
        if isRestOfLineBlank (letter :: rest) then unescape? true rest else none
      else return (← shortEscape? letter) :: (← unescape? false rest)
  | skipping, c :: rest =>
      if skipping ∧ (isSpace c ∨ c = '\n') then unescape? true rest
      else (unescape? false rest).map (c :: ·)

/-- What stands behind a line break at the start of a text, or the whole text. -/
def dropLineBreak : List Char → List Char
  | '\n' :: rest => rest
  | '\r' :: '\n' :: rest => rest
  | text => text

/-- The text behind an opening quote on one line. -/
def oneLine? (quote : Char) (escapes : Bool) (text : List Char) :
    Option (String × List Char) := do
  let (raw, behind) ← untilQuote? quote escapes text
  let plain ← withPlainLines? false raw
  let chars ← if escapes then unescape? false plain else some plain
  return (String.ofList chars, behind)

/-- The text behind three opening quotes. A line break directly behind them does not
belong to it. -/
def manyLines? (quote : Char) (escapes : Bool) (text : List Char) :
    Option (String × List Char) := do
  let (raw, behind) ← untilTripleQuote? quote escapes (dropLineBreak text)
  let plain ← withPlainLines? true raw
  let chars ← if escapes then unescape? false plain else some plain
  return (String.ofList chars, behind)

end ModelLint.Toml
