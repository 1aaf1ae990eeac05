import ModelLint.Json.Value
import ModelLint.Text.Digits

namespace ModelLint.Json

open ModelLint.Text

/-! The tokens of a JSON text.

The grammar is the strict one: no comments, no byte order mark, no raw control
characters in strings, no leading zeros. -/

inductive Token where
  | beginObject
  | endObject
  | beginArray
  | endArray
  | comma
  | colon
  /-- A value that is neither an array nor an object. -/
  | scalar (value : Value)
deriving Repr, Inhabited

/-- The blanks allowed between tokens. -/
def isSpace (c : Char) : Bool :=
  c = ' ' || c = '\n' || c = '\r' || c = '\t'

/-- A unit of a string literal: a character, or a 16-bit code given by number. -/
inductive Piece where
  | plain (c : Char)
  | code (value : Nat)
deriving DecidableEq, Repr, Inhabited

def shortEscape? (letter : Char) : Option Char :=
  [('"', '"'), ('\\', '\\'), ('/', '/'), ('b', '\x08'), ('f', '\x0c'), ('n', '\n'), ('r', '\r'),
    ('t', '\t')].lookup letter

/-- The number that four hexadecimal digits denote. -/
def codeOf? (a b c d : Char) : Option Nat := do
  return (((← hexDigit? a) * 16 + (← hexDigit? b)) * 16 + (← hexDigit? c)) * 16 + (← hexDigit? d)

/-- Splits a text behind an opening quote into the pieces of the literal and the
text behind its closing quote. -/
def literal? : List Char → Option (List Piece × List Char)
  | [] => none
  | '"' :: rest => some ([], rest)
  | '\\' :: 'u' :: a :: b :: c :: d :: rest => do
      let value ← codeOf? a b c d
      let (pieces, behind) ← literal? rest
      return (.code value :: pieces, behind)
  | '\\' :: letter :: rest => do
      let c ← shortEscape? letter
      let (pieces, behind) ← literal? rest
      return (.plain c :: pieces, behind)
  | c :: rest => do
      if c.val < 0x20 ∨ c = '\\' then none
      let (pieces, behind) ← literal? rest
      return (.plain c :: pieces, behind)

/-- Whether a code is the first half of a surrogate pair. -/
def isHighSurrogate (code : Nat) : Bool :=
  0xD800 ≤ code && code < 0xDC00

/-- Whether a code is the second half of a surrogate pair. -/
def isLowSurrogate (code : Nat) : Bool :=
  0xDC00 ≤ code && code < 0xE000

/-- The characters that the pieces of a literal denote. There are none if half of a
surrogate pair stands alone. -/
def charsOf? : List Piece → Option (List Char)
  | [] => some []
  | .plain c :: rest => (charsOf? rest).map (c :: ·)
  | .code high :: .code low :: rest =>
      if isHighSurrogate high then
        if isLowSurrogate low then
          let point := 0x10000 + (high - 0xD800) * 0x400 + (low - 0xDC00)
          (charsOf? rest).map (Char.ofNat point :: ·)
        else none
      else if isLowSurrogate high then none
      else (charsOf? (.code low :: rest)).map (Char.ofNat high :: ·)
  | .code code :: rest =>
      if isHighSurrogate code || isLowSurrogate code then none
      else (charsOf? rest).map (Char.ofNat code :: ·)

def stringValue (pieces : List Piece) : Value :=
  match charsOf? pieces with
  | some chars => .string (String.ofList chars)
  | none => .garbled

/-- The digits at the start of a text, of which there is at least one. -/
def digits? (text : List Char) : Option (List Char × List Char) :=
  match text.span Char.isDigit with
  | ([], _) => none
  | (digits, rest) => some (digits, rest)

/-- The digits of an integer: a zero stands alone. -/
def wholeDigits? (text : List Char) : Option (List Char × List Char) := do
  let (digits, rest) ← digits? text
  if digits.head? = some '0' then some (['0'], digits.tail ++ rest) else some (digits, rest)

/-- The digits behind a decimal point, if there is one. -/
def fraction? : List Char → Option (Option (List Char) × List Char)
  | '.' :: rest => do
      let (digits, behind) ← digits? rest
      return (some digits, behind)
  | text => some (none, text)

/-- The power of ten behind an exponent mark, if there is one. -/
def exponent? : List Char → Option (Option Int × List Char)
  | c :: rest =>
      if c = 'e' ∨ c = 'E' then do
        let (negative, unsigned) := match rest with
          | '-' :: tail => (true, tail)
          | '+' :: tail => (false, tail)
          | _ => (false, rest)
        let (digits, behind) ← digits? unsigned
        let value : Int := digitsValue digits
        return (some (if negative then -value else value), behind)
      else some (none, c :: rest)
  | [] => some (none, [])

/-- A number at the start of a text. -/
def number? (text : List Char) : Option (Number × List Char) := do
  let (negative, unsigned) := match text with
    | '-' :: tail => (true, tail)
    | _ => (false, text)
  let (whole, behindWhole) ← wholeDigits? unsigned
  let (fraction, behindFraction) ← fraction? behindWhole
  let (exponent, behind) ← exponent? behindFraction
  match fraction, exponent with
  | none, none => return (.integer negative (digitsValue whole), behind)
  | _, _ =>
      let decimals := fraction.getD []
      let mantissa := digitsValue (whole ++ decimals)
      return (.decimal negative mantissa (exponent.getD 0 - decimals.length), behind)

/-- The keyword at the start of a text. -/
def keyword? : List Char → Option (Value × List Char)
  | 'n' :: 'u' :: 'l' :: 'l' :: rest => some (.null, rest)
  | 't' :: 'r' :: 'u' :: 'e' :: rest => some (.bool true, rest)
  | 'f' :: 'a' :: 'l' :: 's' :: 'e' :: rest => some (.bool false, rest)
  | _ => none

/-- The token at the start of a text, with the text behind it. -/
def token? (text : List Char) : Option (Token × List Char) :=
  match text with
  | [] => none
  | c :: rest =>
      if c = '\x7b' then some (.beginObject, rest)
      else if c = '\x7d' then some (.endObject, rest)
      else if c = '[' then some (.beginArray, rest)
      else if c = ']' then some (.endArray, rest)
      else if c = ',' then some (.comma, rest)
      else if c = ':' then some (.colon, rest)
      else if c = '"' then
        (literal? rest).map fun (pieces, behind) => (.scalar (stringValue pieces), behind)
      else if c = '-' ∨ c.isDigit then
        (number? (c :: rest)).map fun (value, behind) => (.scalar (.number value), behind)
      else (keyword? (c :: rest)).map fun (value, behind) => (.scalar value, behind)

/-- The tokens of a text. A token leaves less to read, so the length of the text
bounds their number. -/
def tokensWithin : (bound : Nat) → (text : List Char) → Option (List Token)
  | _, [] => some []
  | 0, _ :: _ => none
  | bound + 1, c :: rest =>
      if isSpace c then tokensWithin bound rest
      else do
        let (token, behind) ← token? (c :: rest)
        return token :: (← tokensWithin bound behind)

/-- The tokens of a text, or nothing if some part of it is no token. -/
def tokens (text : List Char) : Option (List Token) :=
  tokensWithin text.length text

end ModelLint.Json
