namespace ModelLint.Text

/-! Blank characters and trimming.

Blank means the Unicode property `White_Space`, so the no-break space and the
ideographic space are trimmed as well as the ASCII blanks. -/

/-- The characters with the Unicode property `White_Space`. -/
def isBlank (c : Char) : Bool :=
  (0x9 ≤ c.val && c.val ≤ 0xD) || c.val == 0x20 || c.val == 0x85 || c.val == 0xA0 ||
    c.val == 0x1680 || (0x2000 ≤ c.val && c.val ≤ 0x200A) || c.val == 0x2028 ||
    c.val == 0x2029 || c.val == 0x202F || c.val == 0x205F || c.val == 0x3000

/-- Drops the blanks at the end of a text. -/
def trimRight (text : List Char) : List Char :=
  (text.reverse.dropWhile isBlank).reverse

/-- Drops the blanks at both ends of a text. -/
def trim (text : List Char) : List Char :=
  trimRight (text.dropWhile isBlank)

def trimmed (text : String) : String :=
  String.ofList (trim text.toList)

end ModelLint.Text
