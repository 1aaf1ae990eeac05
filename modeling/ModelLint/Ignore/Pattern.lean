import ModelLint.Text.Marks

namespace ModelLint.Ignore

open ModelLint.Text (Marks)

/-! Patterns in ignore files.

Stars and question marks stop at slashes. A double star that makes up a whole
component stands for any number of directories. Braces hold alternatives, and a
backslash takes the meaning from the character behind it. Paths are compared byte
by byte, so a set of characters is a set of the bytes of their codes. -/

inductive Piece where
  | byte (value : UInt8)
  /-- Any byte but a slash. -/
  | any
  /-- Any bytes but slashes. -/
  | run
  /-- Any directories at the start of a path. -/
  | leading
  /-- A slash, possibly with directories and another slash behind it. -/
  | between
  /-- A slash and all that is behind it. -/
  | trailing
  | set (negated : Bool) (ranges : List (UInt8 × UInt8))
deriving DecidableEq, Repr, Inhabited

/-- A piece, or some texts of which one has to stand in its place. -/
inductive Part where
  | piece (piece : Piece)
  | choice (branches : List (List Part))
deriving Repr, Inhabited

/-- How a bracketed set can end. -/
inductive BracketedSet where
  | closed (ranges : List (Char × Char)) (rest : List Char)
  | unclosed
  /-- A range ends before it starts. -/
  | disordered
deriving DecidableEq, Repr, Inhabited

/-- Reads the ranges of a set, last one first. A closing bracket that stands first
belongs to the set, and so does a hyphen that stands first or last. -/
def readSet (isFirst inRange : Bool) (ranges : List (Char × Char)) : List Char → BracketedSet
  | [] => .unclosed
  | c :: rest =>
      if c = ']' ∧ !isFirst then
        .closed (if inRange then ('-', '-') :: ranges else ranges) rest
      else if inRange then
        match ranges with
        | (first, _) :: others =>
            if c < first then .disordered else readSet false false ((first, c) :: others) rest
        | [] => .disordered
      else if c = '-' ∧ !isFirst then readSet false true ranges rest
      else readSet false false ((c, c) :: ranges) rest

def bytesOf (c : Char) : List UInt8 :=
  (String.singleton c).toUTF8.toList

/-- A range of characters as ranges of bytes. A single character is the bytes of its
code; otherwise the last byte of the first character and the first byte of the last one
make up a range, and the other bytes stand alone. -/
def byteRanges (range : Char × Char) : List (UInt8 × UInt8) :=
  let alone (bytes : List UInt8) := bytes.map fun byte => (byte, byte)
  if range.1 = range.2 then alone (bytesOf range.1)
  else
    let first := bytesOf range.1
    let last := bytesOf range.2
    alone first.dropLast ++ first.getLast?.toList.zip last.head?.toList ++ alone last.tail

/-- A group of alternatives that is still open. -/
structure Group where
  /-- The parts before the group, last one first. -/
  before : List Part
  /-- The finished alternatives, last one first. -/
  branches : List (List Part)
deriving Repr, Inhabited

/-- A pattern read so far. -/
structure Reading where
  /-- The parts of the innermost alternative, last one first. -/
  parts : List Part := []
  /-- The open groups, innermost first. -/
  groups : List Group := []
  /-- Whether an opening bracket was found that nothing closes. -/
  unclosed : Bool := false
deriving Repr, Inhabited

namespace Reading

def add (reading : Reading) (pieces : List Piece) : Reading :=
  { reading with parts := (pieces.map Part.piece).reverse ++ reading.parts }

/-- Adds a character that stands for itself. -/
def addChar (reading : Reading) (c : Char) : Reading :=
  reading.add ((bytesOf c).map .byte)

def openGroup (reading : Reading) : Reading :=
  { reading with parts := [], groups := ⟨reading.parts, []⟩ :: reading.groups }

/-- A comma parts the alternatives of a group, and stands for itself elsewhere. -/
def comma (reading : Reading) : Reading :=
  match reading.groups with
  | [] => reading.addChar ','
  | group :: outer =>
      { reading with
        parts := []
        groups := ⟨group.before, reading.parts.reverse :: group.branches⟩ :: outer }

def closeGroup? (reading : Reading) : Option Reading :=
  match reading.groups with
  | [] => none
  | group :: outer =>
      let branches := (reading.parts.reverse :: group.branches).reverse
      some { reading with parts := .choice branches :: group.before, groups := outer }

/-- Takes two stars behind the character `previous`. They stand for directories only
where they make up a whole component. The text behind them is given back without the
slash that belongs to them. -/
def twoStars (reading : Reading) (previous : Option Char) (rest : List Char) :
    Reading × List Char :=
  let inGroup := !reading.groups.isEmpty
  let ordinary := (reading.add [.run, .run], rest)
  if reading.parts.isEmpty then
    match rest with
    | [] => (reading.add [.leading], [])
    | '/' :: behind => (reading.add [.leading], behind)
    | _ => ordinary
  else
    let startsComponent :=
      previous = some '/' || (inGroup && (previous = some ',' || previous = some '\x7b'))
    let replaceLast (piece : Piece) :=
      match reading.parts with
      | .piece .leading :: _ | .piece .trailing :: _ => reading
      | _ => { reading with parts := .piece piece :: reading.parts.tail }
    if !startsComponent then ordinary
    else match rest with
      | [] => (replaceLast .trailing, [])
      | c :: behind =>
          if inGroup && (c = ',' || c = '\x7d') then (replaceLast .trailing, rest)
          else if c = '/' then (replaceLast .between, behind)
          else ordinary

/-- Reads a bracketed set, behind its opening bracket. Without a closing bracket the
opening one stands for itself, and so do all later ones. -/
def bracket? (reading : Reading) (rest : List Char) : Option (Reading × List Char) :=
  let (negated, inner) := match rest with
    | '!' :: inner => (true, inner)
    | '^' :: inner => (true, inner)
    | _ => (false, rest)
  match readSet true false [] inner with
  | .closed ranges behind =>
      some (reading.add [.set negated (ranges.flatMap byteRanges)], behind)
  | .unclosed => some ({ reading.addChar '[' with unclosed := true }, rest)
  | .disordered => none

/-- Reads the rest of a pattern, behind the character `previous`. Each step leaves less to
read, so the length of the text bounds their number. -/
def finish? (reading : Reading) :
    (bound : Nat) → (previous : Option Char) → List Char → Option (List Part)
  | _, _, [] => if reading.groups.isEmpty then some reading.parts.reverse else none
  | 0, _, _ :: _ => none
  | bound + 1, previous, c :: rest =>
      if c = '?' then (reading.add [.any]).finish? bound c rest
      else if c = '*' then
        match rest with
        | '*' :: behind =>
            let (next, remaining) := reading.twoStars previous behind
            next.finish? bound (if remaining.length < behind.length then '/' else '*') remaining
        | _ => (reading.add [.run]).finish? bound c rest
      else if c = '[' ∧ !reading.unclosed then do
        let (next, remaining) ← reading.bracket? rest
        next.finish? bound (if next.unclosed then '[' else ']') remaining
      else if c = '\x7b' then reading.openGroup.finish? bound c rest
      else if c = '\x7d' then do (← reading.closeGroup?).finish? bound c rest
      else if c = ',' then reading.comma.finish? bound c rest
      else if c = '\\' then
        match rest with
        | [] => none
        | d :: behind => (reading.addChar d).finish? bound d behind
      else (reading.addChar c).finish? bound c rest

end Reading

mutual

/-- A part without its empty alternatives. Of a group of which none is left there is
nothing left. -/
def Part.prune : Part → List Part
  | .piece piece => [.piece piece]
  | .choice branches =>
      match pruneBranches branches with
      | [] => []
      | kept => [.choice kept]

def pruneAll : List Part → List Part
  | [] => []
  | part :: rest => part.prune ++ pruneAll rest

/-- Prunes some alternatives, and drops those without a piece. -/
def pruneBranches : List (List Part) → List (List Part)
  | [] => []
  | branch :: rest =>
      match pruneAll branch with
      | [] => pruneBranches rest
      | kept => kept :: pruneBranches rest

end

/-- How deep the expression for a piece nests. -/
def Piece.depth : Piece → Nat
  | byte _ => 0
  | any | trailing => 1
  | run => 2
  | set _ ranges => if ranges.length ≤ 1 then 1 else 2
  | leading | between => 4

/-- Whether a sequence has more than one member. The slash of a trailing piece is one of
its own. -/
def isSequence : List Part → Bool
  | [] => false
  | [.piece .trailing] => true
  | [_] => false
  | _ :: _ :: _ => true

mutual

/-- How deep the expression for a part nests. -/
def Part.depth : Part → Nat
  | .piece piece => piece.depth
  | .choice branches => 1 + (if branches.length ≤ 1 then 0 else 1) + branchDepth branches

/-- How deep the expressions for some parts nest. -/
def depth : List Part → Nat
  | [] => 0
  | part :: rest => max part.depth (depth rest)

/-- How deep some alternatives nest. A sequence is a level of its own. -/
def branchDepth : List (List Part) → Nat
  | [] => 0
  | branch :: rest =>
      max ((if isSequence branch then 1 else 0) + depth branch) (branchDepth rest)

end

/-- The depth to which a pattern may nest. -/
def depthLimit : Nat := 250

/-- The slash, as a byte. -/
def slash : UInt8 := 47

/-- Whether a byte lies in a set. -/
def isInSet (negated : Bool) (ranges : List (UInt8 × UInt8)) (value : UInt8) : Bool :=
  negated != ranges.any fun (first, last) => first ≤ value && value ≤ last

/-- Where a piece can end that starts at a marked place. -/
def Piece.advance (text : List UInt8) (marks : Marks) : Piece → Marks
  | byte value => marks.step (· = value) text
  | any => marks.step (· ≠ slash) text
  | run => marks.spread (· ≠ slash) text
  | leading => marks.union ((marks.spreadAll text).step (· = slash) text)
  | between =>
      let behind := marks.step (· = slash) text
      behind.union ((behind.spreadAll text).step (· = slash) text)
  | trailing => (marks.step (· = slash) text).spreadAll text
  | set negated ranges => marks.step (isInSet negated ranges) text

mutual

/-- Where a part can end that starts at a marked place. -/
def Part.advance (text : List UInt8) (marks : Marks) : Part → Marks
  | .piece piece => piece.advance text marks
  | .choice branches => advanceAny text marks branches

/-- Where some parts can end that start at a marked place. -/
def advance (text : List UInt8) (marks : Marks) : List Part → Marks
  | [] => marks
  | part :: rest => advance text (part.advance text marks) rest

/-- Where one of some alternatives can end that start at a marked place. -/
def advanceAny (text : List UInt8) (marks : Marks) : List (List Part) → Marks
  | [] => marks.map fun _ => false
  | branch :: rest => (advance text marks branch).union (advanceAny text marks rest)

end

inductive Pattern where
  /-- Two stars alone. -/
  | everything
  | sequence (parts : List Part)
deriving Repr, Inhabited

namespace Pattern

def parse? (text : List Char) : Option Pattern := do
  match ← Reading.finish? {} text.length none text with
  | [.piece .leading] => return everything
  | found => return sequence (pruneAll found)

/-- Whether a pattern nests too deep to be used. -/
def isTooDeep : Pattern → Bool
  | everything => false
  | sequence parts => depthLimit < 1 + depth parts

def fits (path : String) : Pattern → Bool
  | everything => true
  | sequence parts =>
      let text := path.toUTF8.toList
      (advance text (Marks.atStart text) parts).atEnd

end Pattern

end ModelLint.Ignore
