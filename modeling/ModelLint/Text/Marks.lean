namespace ModelLint.Text

/-! Matching a pattern with a whole text.

A pattern is taken piece by piece, and for every place in the text it is known whether the
pieces so far can end there. So the work grows with the pattern and with the text, and not
with the number of ways to divide the text among the pieces. -/

/-- The places of a text, first to last, each of them marked or not. There is one before
every member of the text and one behind the last. -/
abbrev Marks := List Bool

namespace Marks

variable {α : Type}

/-- Only the first place is marked. -/
def atStart (text : List α) : Marks :=
  true :: text.map fun _ => false

/-- Whether the last place is marked. -/
def atEnd (marks : Marks) : Bool :=
  marks.getLast? = some true

/-- The places that are marked in one of two ways. -/
def union (left right : Marks) : Marks :=
  List.zipWith (· || ·) left right

/-- Moves every mark over the next member of the text, and drops those for which that
member does not pass. -/
def step (passes : α → Bool) (text : List α) (marks : Marks) : Marks :=
  false :: List.zipWith (fun mark member => mark && passes member) marks text

/-- Marks all places that are reached from a marked one over members that pass. The flag
tells whether the first place is reached from further left. -/
def spreadFrom (passes : α → Bool) : (reached : Bool) → List α → Marks → Marks
  | reached, member :: text, mark :: marks =>
      (mark || reached) :: spreadFrom passes ((mark || reached) && passes member) text marks
  | reached, [], mark :: _ => [mark || reached]
  | _, _, [] => []

/-- Marks all places that are reached from a marked one over members that pass. -/
def spread (passes : α → Bool) (text : List α) (marks : Marks) : Marks :=
  spreadFrom passes false text marks

/-- Marks all places from the first marked one on. -/
def spreadAll (text : List α) (marks : Marks) : Marks :=
  spread (fun _ => true) text marks

/-- Moves the marks to the last place. -/
def gather (text : List α) (marks : Marks) : Marks :=
  (text.map fun _ => false) ++ [marks.any (·)]

end Marks

end ModelLint.Text
