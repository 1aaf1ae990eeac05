import ModelLint.Text.Digits
import ModelLint.Text.Search

namespace ModelLint.Template

open ModelLint.Text

/-! Message templates.

A placeholder is a decimal number between braces, and stands for the argument
with that index. The text put in for a placeholder is not looked at again, and a
brace that opens no placeholder is ordinary text. -/

/-- The index written inside a placeholder: digits after an optional plus. -/
def index? (inner : List Char) : Option Nat :=
  let digits := (after? ['+'] inner).getD inner
  if digits ≠ [] ∧ digits.all Char.isDigit then
    some (digitsValue digits)
  else none

/-- The argument that the text inside a pair of braces names. -/
def argument? (args : List String) (inner : List Char) : Option String := do
  args[← index? inner]?

/-- The argument named at an opening brace, with the text behind its closing
brace. The text starts behind the opening brace. -/
def placeholder? (args : List String) (text : List Char) : Option (String × List Char) := do
  let (inner, behind) ← cut? '\x7d' text
  return (← argument? args inner, behind)

theorem length_of_placeholder? {args : List String} {text behind : List Char} {value : String}
    (found : placeholder? args text = some (value, behind)) : behind.length < text.length := by
  unfold placeholder? at found
  cases cutText : cut? '\x7d' text with
  | none => simp [cutText] at found
  | some parts =>
      obtain ⟨inner, rest⟩ := parts
      cases named : argument? args inner with
      | none => simp [cutText, named] at found
      | some argument =>
          simp [cutText, named] at found
          obtain ⟨_, rfl⟩ := found
          exact length_of_cut? cutText

/-- Puts the arguments in for the placeholders of a text. -/
def fill (args : List String) : (text : List Char) → List Char
  | [] => []
  | c :: rest =>
      if c = '\x7b' then
        match _found : placeholder? args rest with
        | some (value, behind) => value.toList ++ fill args behind
        | none => c :: fill args rest
      else c :: fill args rest
termination_by text => text.length
decreasing_by
  · have shorter := length_of_placeholder? _found
    simp only [List.length_cons]
    omega
  · simp
  · simp

/-- The message of a template: every placeholder whose index is that of an
argument is replaced by it, and all else is kept. -/
def format (template : String) (args : List String) : String :=
  String.ofList (fill args template.toList)

end ModelLint.Template
