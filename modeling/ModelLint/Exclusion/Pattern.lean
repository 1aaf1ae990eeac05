import ModelLint.Text.Marks
import ModelLint.Text.Search

namespace ModelLint.Exclusion

open ModelLint.Text (Marks)

/-! Patterns of paths that are left out of an analysis.

A star stands for any text and a question mark for any character, slashes included.
A double star is a whole component of the pattern and stands for any number of
directories. Letters match in either case. -/

/-- A member of a bracketed set. -/
inductive Member where
  | one (c : Char)
  | range (first last : Char)
deriving DecidableEq, Repr, Inhabited

inductive Piece where
  | letter (c : Char)
  /-- Any character. -/
  | any
  /-- Any text. -/
  | run
  /-- Any number of directories. -/
  | directories
  | inside (members : List Member)
  | outside (members : List Member)
deriving DecidableEq, Repr, Inhabited

abbrev Pattern := List Piece

/-- The members of a bracketed set. -/
def members : List Char → List Member
  | first :: '-' :: last :: rest => .range first last :: members rest
  | c :: rest => .one c :: members rest
  | [] => []

/-- A bracketed set, behind its opening bracket. A closing bracket that stands first
belongs to the set. -/
def bracketed? : List Char → Option (Piece × List Char)
  | '!' :: first :: rest => do
      let (inner, behind) ← Text.cut? ']' rest
      return (.outside (members (first :: inner)), behind)
  | ['!'] => none
  | first :: rest => do
      let (inner, behind) ← Text.cut? ']' rest
      return (.inside (members (first :: inner)), behind)
  | [] => none

/-- What follows a double star: the slash behind it belongs to it. -/
def afterDirectories? : List Char → Option (List Char)
  | [] => some []
  | '/' :: rest => some rest
  | _ => none

/-- Reads the pieces of a pattern. The flag tells whether a component starts here. Each
piece leaves less to read, so the length of the text bounds their number. -/
def pieces? : (bound : Nat) → (atStart : Bool) → List Char → Option Pattern
  | _, _, [] => some []
  | 0, _, _ :: _ => none
  | bound + 1, atStart, text =>
      match text with
      | [] => some []
      | '?' :: rest => (pieces? bound false rest).map (.any :: ·)
      | '*' :: '*' :: '*' :: _ => none
      | '*' :: '*' :: rest => do
          if !atStart then none
          let behind ← afterDirectories? rest
          return .directories :: (← pieces? bound true behind)
      | '*' :: rest => (pieces? bound false rest).map (.run :: ·)
      | '[' :: rest => do
          let (set, behind) ← bracketed? rest
          return set :: (← pieces? bound false behind)
      | c :: rest => (pieces? bound (c = '/') rest).map (.letter c :: ·)

def Pattern.parse? (text : String) : Option Pattern :=
  pieces? text.toList.length true text.toList

/-- Equality up to the case of ASCII letters. -/
def sameLetter (left right : Char) : Bool :=
  left.toLower = right.toLower

/-- A range takes letters in either case if both its ends are letters. -/
def Member.contains (c : Char) : Member → Bool
  | one member => sameLetter c member
  | range first last =>
      (first.isAlpha && last.isAlpha && first.toLower ≤ c.toLower && c.toLower ≤ last.toLower) ||
        (first ≤ c && c ≤ last)

/-- Whether a piece stands for this one character. -/
def Piece.fits : Piece → Char → Bool
  | letter member, c => sameLetter c member
  | any, _ => true
  | inside members, c => members.any (·.contains c)
  | outside members, c => !members.any (·.contains c)
  | run, _ | directories, _ => false

/-- Where a piece can end that starts at a marked place. -/
def Piece.advance (text : List Char) (marks : Marks) : Piece → Marks
  | run => marks.spreadAll text
  | directories =>
      (marks.union ((marks.spreadAll text).step (· = '/') text)).union (marks.gather text)
  | piece => marks.step piece.fits text

/-- Whether a pattern stands for the whole text. -/
def Pattern.fits (pattern : Pattern) (text : List Char) : Bool :=
  (pattern.foldl (Piece.advance text) (Marks.atStart text)).atEnd

end ModelLint.Exclusion
