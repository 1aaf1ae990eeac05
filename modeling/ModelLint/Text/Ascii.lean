namespace ModelLint.Text

/-! ASCII letter case.

Rule codes, property names, path segments and built-in method names are all
compared up to the case of the ASCII letters; every other character has to agree
exactly. -/

/-- Lower-cases the ASCII letters and keeps every other character. -/
def lower (text : String) : String :=
  String.ofList (text.toList.map Char.toLower)

/-- Equality up to the case of ASCII letters. -/
def sameIgnoringCase (left right : String) : Bool :=
  left.toList.map Char.toLower == right.toList.map Char.toLower

@[simp]
theorem sameIgnoringCase_self (text : String) : sameIgnoringCase text text = true := by
  simp [sameIgnoringCase]

end ModelLint.Text
