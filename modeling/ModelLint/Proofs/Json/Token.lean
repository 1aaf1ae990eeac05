import Mathlib.Data.List.TakeDrop
import ModelLint.Json.Token
import ModelLint.Json.Writer

namespace ModelLint

/-! Scalars are single tokens, in whatever way they are written.

A number ends where a text behind it starts that could not continue it; every other token
ends by itself. The writer chooses one of the ways. -/

namespace Text

variable {value : Nat}

theorem digitsValue_digitsOf (value : Nat) : digitsValue (digitsOf value) = value :=
  Nat.ofDigitChars_ten_toDigits

theorem isDigit_of_mem_digitsOf {c : Char} (member : c ∈ digitsOf value) : c.isDigit = true :=
  Nat.isDigit_of_mem_toDigits (by decide) (by decide) member

/-- Only zero starts with a zero. -/
theorem digitsOf_eq_cons (value : Nat) :
    ∃ digit others, digitsOf value = digit :: others ∧ (digit = '0' → digitsOf value = ['0']) := by
  induction value using Nat.strongRecOn with
  | ind value ih =>
      rcases Nat.lt_or_ge value 10 with small | large
      · have single : digitsOf value = [Nat.digitChar value] := Nat.toDigits_of_lt_base small
        exact ⟨Nat.digitChar value, [], single, fun zero => by rw [single, zero]⟩
      · have split : digitsOf value = digitsOf (value / 10) ++ [Nat.digitChar (value % 10)] :=
          Nat.toDigits_of_base_le (by decide) large
        obtain ⟨digit, others, front, isZero⟩ := ih (value / 10) (by omega)
        refine ⟨digit, others ++ [Nat.digitChar (value % 10)], by rw [split, front]; rfl, ?_⟩
        intro zero
        have nothing := congrArg digitsValue (isZero zero)
        rw [digitsValue_digitsOf] at nothing
        change value / 10 = 0 at nothing
        omega

end Text

namespace Json

open Text

variable {rest : List Char}

/-- The text behind a number does not continue it. -/
def Fresh (rest : List Char) : Prop :=
  ∀ c, rest.head? = some c → c.isDigit = false ∧ c ≠ '.' ∧ c ≠ 'e' ∧ c ≠ 'E'

/-- Decimal digits, of which there is at least one. -/
structure IsDigits (digits : List Char) : Prop where
  nonempty : digits ≠ []
  all : ∀ c ∈ digits, c.isDigit = true

/-- The power of ten at the end of a number, with its mark. -/
structure Exponent where
  mark : Char
  sign : List Char
  digits : List Char

namespace Exponent

def text (exponent : Exponent) : List Char :=
  exponent.mark :: (exponent.sign ++ exponent.digits)

def value (exponent : Exponent) : Int :=
  if exponent.sign = ['-'] then -digitsValue exponent.digits else digitsValue exponent.digits

structure Proper (exponent : Exponent) : Prop where
  mark : exponent.mark = 'e' ∨ exponent.mark = 'E'
  sign : exponent.sign = [] ∨ exponent.sign = ['+'] ∨ exponent.sign = ['-']
  digits : IsDigits exponent.digits

end Exponent

/-- The number that digits around a point denote, with a power of ten. -/
def numberOf (negative : Bool) (whole : List Char) (fraction : Option (List Char))
    (exponent : Option Int) : Number :=
  match fraction, exponent with
  | none, none => .integer negative (digitsValue whole)
  | _, _ =>
      .decimal negative (digitsValue (whole ++ fraction.getD []))
        (exponent.getD 0 - (fraction.getD []).length)

/-- The parts of a number as it is written. -/
structure Numeral where
  negative : Bool
  whole : List Char
  fraction : Option (List Char)
  exponent : Option Exponent

namespace Numeral

def fractionText (numeral : Numeral) : List Char :=
  numeral.fraction.elim [] ('.' :: ·)

def exponentText (numeral : Numeral) : List Char :=
  numeral.exponent.elim [] Exponent.text

def text (numeral : Numeral) : List Char :=
  writeNumber.sign numeral.negative ++
    (numeral.whole ++ (numeral.fractionText ++ numeral.exponentText))

def value (numeral : Numeral) : Number :=
  numberOf numeral.negative numeral.whole numeral.fraction (numeral.exponent.map Exponent.value)

/-- A zero in front of the point stands alone. -/
structure Proper (numeral : Numeral) : Prop where
  whole : IsDigits numeral.whole
  zero : numeral.whole.head? = some '0' → numeral.whole = ['0']
  fraction : ∀ digits, numeral.fraction = some digits → IsDigits digits
  exponent : ∀ exponent, numeral.exponent = some exponent → exponent.Proper

end Numeral

theorem digits?_append {digits : List Char} (isDigits : IsDigits digits)
    (apart : ∀ c, rest.head? = some c → c.isDigit = false) :
    digits? (digits ++ rest) = some (digits, rest) := by
  have ended : rest.takeWhile Char.isDigit = [] ∧ rest.dropWhile Char.isDigit = rest := by
    cases rest with
    | nil => exact ⟨rfl, rfl⟩
    | cons c rest => simp [apart c rfl]
  obtain ⟨digit, others, front⟩ := List.exists_cons_of_ne_nil isDigits.nonempty
  rw [digits?, List.span_eq_takeWhile_dropWhile, List.takeWhile_append_of_pos isDigits.all,
    List.dropWhile_append_of_pos isDigits.all, ended.1, ended.2, front]
  simp

theorem wholeDigits?_append {whole : List Char} (isDigits : IsDigits whole)
    (zero : whole.head? = some '0' → whole = ['0'])
    (apart : ∀ c, rest.head? = some c → c.isDigit = false) :
    wholeDigits? (whole ++ rest) = some (whole, rest) := by
  simp only [wholeDigits?, digits?_append isDigits apart, bind, Option.bind]
  split
  · rename_i isZero
    simp [zero isZero]
  · rfl

theorem exponent?_append {exponent : Exponent} (proper : exponent.Proper)
    (apart : ∀ c, rest.head? = some c → c.isDigit = false) :
    exponent? (exponent.text ++ rest) = some (some exponent.value, rest) := by
  have read := digits?_append proper.digits apart
  obtain ⟨digit, others, front⟩ := List.exists_cons_of_ne_nil proper.digits.nonempty
  have isDigit : digit.isDigit = true := proper.digits.all digit (by simp [front])
  simp only [Exponent.text, Exponent.value, List.cons_append, List.append_assoc, exponent?,
    proper.mark, if_true]
  rcases proper.sign with none | plus | minus
  · -- Without a sign the digits follow at once, and a digit is no sign.
    have noMinus : digit ≠ '-' := by
      rintro rfl
      simp at isDigit
    have noPlus : digit ≠ '+' := by
      rintro rfl
      simp at isDigit
    rw [none, List.nil_append]
    split
    · rename_i same
      simp [front, noMinus] at same
    · rename_i same
      simp [front, noPlus] at same
    · simp [read]
  · simp [plus, read]
  · simp [minus, read]

namespace Numeral

variable {numeral : Numeral}

theorem Proper.exponent_apart (proper : numeral.Proper) (fresh : Fresh rest) (c : Char)
    (first : (numeral.exponentText ++ rest).head? = some c) : c.isDigit = false ∧ c ≠ '.' := by
  cases given : numeral.exponent with
  | none =>
      have next := fresh c (by simpa [exponentText, given] using first)
      exact ⟨next.1, next.2.1⟩
  | some exponent =>
      obtain rfl : exponent.mark = c := by
        simpa [exponentText, given, Exponent.text] using first
      rcases (proper.exponent exponent given).mark with isMark | isMark
      · rw [isMark]
        decide
      · rw [isMark]
        decide

theorem Proper.fraction_apart (proper : numeral.Proper) (fresh : Fresh rest) (c : Char)
    (first : (numeral.fractionText ++ (numeral.exponentText ++ rest)).head? = some c) :
    c.isDigit = false := by
  cases given : numeral.fraction with
  | none => exact (proper.exponent_apart fresh c (by simpa [fractionText, given] using first)).1
  | some digits =>
      obtain rfl : '.' = c := by simpa [fractionText, given] using first
      decide

theorem Proper.fraction?_eq (proper : numeral.Proper) (fresh : Fresh rest) :
    fraction? (numeral.fractionText ++ (numeral.exponentText ++ rest)) =
      some (numeral.fraction, numeral.exponentText ++ rest) := by
  have apart := proper.exponent_apart fresh
  cases given : numeral.fraction with
  | none =>
      rw [fractionText, given]
      change fraction? (numeral.exponentText ++ rest) = _
      rw [fraction?.eq_def]
      split
      · rename_i next same
        exact absurd rfl (apart '.' (by simp [same])).2
      · rfl
  | some digits =>
      have read := digits?_append (proper.fraction digits given) fun c first => (apart c first).1
      simp [fractionText, given, fraction?, read]

theorem Proper.exponent?_eq (proper : numeral.Proper) (fresh : Fresh rest) :
    exponent? (numeral.exponentText ++ rest) =
      some (numeral.exponent.map Exponent.value, rest) := by
  cases given : numeral.exponent with
  | some exponent =>
      have read := exponent?_append (proper.exponent exponent given) fun c first =>
        (fresh c first).1
      simpa [exponentText, given] using read
  | none =>
      rw [exponentText, given]
      change exponent? rest = _
      cases rest with
      | nil => rfl
      | cons c rest =>
          obtain ⟨_, _, noMark, noCapital⟩ := fresh c rfl
          simp [exponent?, noMark, noCapital]

theorem Proper.text_eq_cons (proper : numeral.Proper) :
    ∃ c text, numeral.text = c :: text ∧ (c = '-' ∨ c.isDigit = true) := by
  obtain ⟨digit, others, front⟩ := List.exists_cons_of_ne_nil proper.whole.nonempty
  have isDigit : digit.isDigit = true := proper.whole.all digit (by simp [front])
  rw [text, front]
  cases numeral.negative with
  | true => exact ⟨_, _, rfl, .inl rfl⟩
  | false => exact ⟨_, _, rfl, .inr isDigit⟩

end Numeral

/-- Only the sign depends on how a number starts, so the rest is read for any way to get it. -/
theorem number?_parts {unsigned whole behindWhole behindFraction behind : List Char}
    {negative : Bool} {sign : Bool × List Char} {fraction : Option (List Char)}
    {exponent : Option Int} (split : sign = (negative, unsigned))
    (wholeRead : wholeDigits? unsigned = some (whole, behindWhole))
    (fractionRead : fraction? behindWhole = some (fraction, behindFraction))
    (exponentRead : exponent? behindFraction = some (exponent, behind)) :
    (do
      let (whole, behindWhole) ← wholeDigits? sign.2
      let (fraction, behindFraction) ← fraction? behindWhole
      let (exponent, behind) ← exponent? behindFraction
      match fraction, exponent with
      | none, none => return (Number.integer sign.1 (digitsValue whole), behind)
      | _, _ =>
          let decimals := fraction.getD []
          let mantissa := digitsValue (whole ++ decimals)
          return (.decimal sign.1 mantissa (exponent.getD 0 - decimals.length), behind)) =
      some (numberOf negative whole fraction exponent, behind) := by
  subst split
  simp only [wholeRead, fractionRead, exponentRead, bind, Option.bind]
  cases fraction <;> cases exponent <;> rfl

theorem number?_numeral {numeral : Numeral} (proper : numeral.Proper) (fresh : Fresh rest) :
    number? (numeral.text ++ rest) = some (numeral.value, rest) := by
  have whole := wholeDigits?_append proper.whole proper.zero (proper.fraction_apart fresh)
  have signed : numeral.text ++ rest = writeNumber.sign numeral.negative ++
      (numeral.whole ++ (numeral.fractionText ++ (numeral.exponentText ++ rest))) := by
    simp [Numeral.text]
  rw [signed]
  refine number?_parts ?_ whole (proper.fraction?_eq fresh) (proper.exponent?_eq fresh)
  obtain ⟨digit, others, front⟩ := List.exists_cons_of_ne_nil proper.whole.nonempty
  have isDigit : digit.isDigit = true := proper.whole.all digit (by simp [front])
  cases numeral.negative with
  | true => rfl
  | false =>
      simp only [writeNumber.sign, Bool.false_eq_true, if_false, List.nil_append, front,
        List.cons_append]
      split
      · rename_i same
        obtain rfl : digit = '-' := (List.cons.inj same).1
        simp at isDigit
      · rfl

theorem token?_numeral {numeral : Numeral} (proper : numeral.Proper) (fresh : Fresh rest) :
    token? (numeral.text ++ rest) = some (.scalar (.number numeral.value), rest) := by
  have read := number?_numeral proper fresh
  obtain ⟨c, text, written, start⟩ := proper.text_eq_cons
  have other : ∀ mark : Char, mark ≠ '-' → mark.isDigit = false → c ≠ mark := by
    rintro mark noMinus noDigit rfl
    simp [noMinus, noDigit] at start
  rw [written, List.cons_append] at read ⊢
  rw [token?, if_neg (other _ (by decide) rfl), if_neg (other _ (by decide) rfl),
    if_neg (other _ (by decide) rfl), if_neg (other _ (by decide) rfl),
    if_neg (other _ (by decide) rfl), if_neg (other _ (by decide) rfl),
    if_neg (other _ (by decide) rfl), if_pos start, read]
  rfl

theorem isDigits_digitsOf (value : Nat) : IsDigits (digitsOf value) := by
  obtain ⟨digit, others, front, _⟩ := digitsOf_eq_cons value
  exact ⟨by simp [front], fun c => isDigit_of_mem_digitsOf⟩

theorem zero_digitsOf (value : Nat) (first : (digitsOf value).head? = some '0') :
    digitsOf value = ['0'] := by
  obtain ⟨digit, others, front, isZero⟩ := digitsOf_eq_cons value
  exact isZero (by simpa [front] using first)

theorem exists_numeral (number : Number) :
    ∃ numeral : Numeral, numeral.Proper ∧ numeral.text = writeNumber number ∧
      numeral.value = number := by
  cases number with
  | integer negative magnitude =>
      refine ⟨⟨negative, digitsOf magnitude, none, none⟩,
        ⟨isDigits_digitsOf _, zero_digitsOf _, by simp, by simp⟩, ?_, ?_⟩
      · simp [Numeral.text, Numeral.fractionText, Numeral.exponentText, writeNumber]
      · simp [Numeral.value, numberOf, digitsValue_digitsOf]
  | decimal negative mantissa power =>
      have proper : Exponent.Proper
          ⟨'e', writeNumber.sign (power < 0), digitsOf power.natAbs⟩ := by
        refine ⟨.inl rfl, ?_, isDigits_digitsOf _⟩
        cases decide (power < 0) with
        | false => exact .inl rfl
        | true => exact .inr (.inr rfl)
      refine ⟨⟨negative, digitsOf mantissa, none, some
        ⟨'e', writeNumber.sign (power < 0), digitsOf power.natAbs⟩⟩,
        ⟨isDigits_digitsOf _, zero_digitsOf _, by simp, by simpa using proper⟩, ?_, ?_⟩
      · simp [Numeral.text, Numeral.fractionText, Numeral.exponentText, Exponent.text, writeNumber]
      · have value : Exponent.value ⟨'e', writeNumber.sign (power < 0), digitsOf power.natAbs⟩ =
            power := by
          rw [Exponent.value, digitsValue_digitsOf]
          by_cases negative : power < 0
          · simp only [writeNumber.sign, negative, decide_true, if_true]
            omega
          · simp only [writeNumber.sign, negative, decide_false, Bool.false_eq_true, if_false,
              List.nil_eq, reduceCtorEq]
            omega
        simp [Numeral.value, numberOf, digitsValue_digitsOf, value]

/-- A character is escaped by a letter, by its code, or not at all. -/
theorem escape_cases (c : Char) :
    (∃ letter, escape c = ['\\', letter] ∧ shortEscape? letter = some c) ∨
    (c.toNat < 0x20 ∧ escape c =
      ['\\', 'u', '0', '0', hexDigit (c.toNat / 16), hexDigit (c.toNat % 16)]) ∨
    (0x20 ≤ c.toNat ∧ c ≠ '"' ∧ c ≠ '\\' ∧ escape c = [c]) := by
  by_cases quote : c = '"'
  · subst quote
    exact .inl ⟨'"', rfl, rfl⟩
  by_cases backslash : c = '\\'
  · subst backslash
    exact .inl ⟨'\\', rfl, rfl⟩
  by_cases backspace : c = '\x08'
  · subst backspace
    exact .inl ⟨'b', rfl, rfl⟩
  by_cases feed : c = '\x0c'
  · subst feed
    exact .inl ⟨'f', rfl, rfl⟩
  by_cases newline : c = '\n'
  · subst newline
    exact .inl ⟨'n', rfl, rfl⟩
  by_cases returned : c = '\r'
  · subst returned
    exact .inl ⟨'r', rfl, rfl⟩
  by_cases tab : c = '\t'
  · subst tab
    exact .inl ⟨'t', rfl, rfl⟩
  rw [escape, if_neg quote, if_neg backslash, if_neg backspace, if_neg feed, if_neg newline,
    if_neg returned, if_neg tab]
  by_cases control : c.toNat < 0x20
  · rw [if_pos control]
    exact .inr (.inl ⟨control, rfl⟩)
  · rw [if_neg control]
    exact .inr (.inr ⟨Nat.le_of_not_lt control, quote, backslash, rfl⟩)

theorem literal?_letter {letter c : Char} (noCode : letter ≠ 'u')
    (short : shortEscape? letter = some c) (text : List Char) :
    literal? ('\\' :: letter :: text) =
      (literal? text).map fun (pieces, behind) => (.plain c :: pieces, behind) := by
  rw [literal?.eq_def]
  split
  · contradiction
  · rename_i same
    simp at same
  · rename_i same
    exact absurd (List.cons.inj (List.cons.inj same).2).1 noCode
  · rename_i same
    obtain ⟨rfl, rfl⟩ : letter = _ ∧ text = _ := by simpa using same
    simp only [short, bind, Option.bind]
    cases literal? text <;> rfl
  · rename_i noEscape same
    obtain ⟨first, others⟩ := List.cons.inj same
    exact absurd others.symm (noEscape letter text first.symm)

theorem codeOf?_hexDigit (c : Char) (control : c.toNat < 0x20) :
    codeOf? '0' '0' (hexDigit (c.toNat / 16)) (hexDigit (c.toNat % 16)) = some c.toNat := by
  have each : ∀ code < 0x20,
      codeOf? '0' '0' (hexDigit (code / 16)) (hexDigit (code % 16)) = some code := by
    decide
  exact each c.toNat control

theorem literal?_code {a b c d : Char} {code : Nat} (read : codeOf? a b c d = some code)
    (text : List Char) :
    literal? ('\\' :: 'u' :: a :: b :: c :: d :: text) =
      (literal? text).map fun (pieces, behind) => (.code code :: pieces, behind) := by
  simp only [literal?, read, bind, Option.bind]
  cases literal? text <;> rfl

theorem literal?_plain {c : Char} (plain : 0x20 ≤ c.toNat) (noQuote : c ≠ '"')
    (noBackslash : c ≠ '\\') (text : List Char) :
    literal? (c :: text) =
      (literal? text).map fun (pieces, behind) => (.plain c :: pieces, behind) := by
  have visible : ¬ (c.val < 0x20 ∨ c = '\\') := by
    rintro (control | backslash)
    · have := UInt32.lt_iff_toNat_lt.mp control
      change c.toNat < 32 at this
      omega
    · exact noBackslash backslash
  rw [literal?.eq_def]
  split
  · contradiction
  · rename_i same
    exact absurd (List.cons.inj same).1 noQuote
  · rename_i same
    exact absurd (List.cons.inj same).1 noBackslash
  · rename_i same
    exact absurd (List.cons.inj same).1 noBackslash
  · rename_i same
    obtain ⟨rfl, rfl⟩ := List.cons.inj same
    simp only [visible, if_false, bind, Option.bind, pure]
    cases literal? text <;> rfl

theorem charsOf?_code {code : Nat} (low : code < 0xD800) (pieces : List Piece) :
    charsOf? (.code code :: pieces) = (charsOf? pieces).map (Char.ofNat code :: ·) := by
  have noHigh : isHighSurrogate code = false := by
    simp only [isHighSurrogate, Bool.and_eq_false_iff, decide_eq_false_iff_not]
    omega
  have noLow : isLowSurrogate code = false := by
    simp only [isLowSurrogate, Bool.and_eq_false_iff, decide_eq_false_iff_not]
    omega
  cases pieces with
  | nil => simp [charsOf?, noHigh, noLow]
  | cons piece pieces =>
      cases piece with
      | plain c => simp [charsOf?, noHigh, noLow]
      | code other => simp [charsOf?, noHigh, noLow]

/-- How a piece of a string literal may be written. -/
inductive Piece.Written : Piece → List Char → Prop where
  | plain {c : Char} (visible : 0x20 ≤ c.toNat) (noQuote : c ≠ '"') (noBackslash : c ≠ '\\') :
      Written (.plain c) [c]
  | letter {letter c : Char} (short : shortEscape? letter = some c) :
      Written (.plain c) ['\\', letter]
  | code {a b c d : Char} {code : Nat} (read : codeOf? a b c d = some code) :
      Written (.code code) ['\\', 'u', a, b, c, d]

theorem Piece.Written.literal?_eq {piece : Piece} {text : List Char} (written : piece.Written text)
    (rest : List Char) :
    literal? (text ++ rest) =
      (literal? rest).map fun (pieces, behind) => (piece :: pieces, behind) := by
  cases written with
  | plain visible noQuote noBackslash => exact literal?_plain visible noQuote noBackslash rest
  | letter short =>
      have noCode : shortEscape? 'u' = none := by decide
      refine literal?_letter ?_ short rest
      rintro rfl
      simp [noCode] at short
  | code read => exact literal?_code read rest

/-- The text of a string literal, quotes included. -/
inductive Literal : List Piece → List Char → Prop where
  | quoted {pieces : List (Piece × List Char)}
      (each : ∀ piece ∈ pieces, piece.1.Written piece.2) :
      Literal (pieces.map (·.1)) ('"' :: (pieces.flatMap (·.2) ++ ['"']))

theorem literal?_pieces {pieces : List (Piece × List Char)}
    (each : ∀ piece ∈ pieces, piece.1.Written piece.2) (rest : List Char) :
    literal? (pieces.flatMap (·.2) ++ '"' :: rest) = some (pieces.map (·.1), rest) := by
  induction pieces with
  | nil => rfl
  | cons piece others ih =>
      have later := ih fun other member => each other (List.mem_cons_of_mem _ member)
      rw [List.flatMap_cons, List.append_assoc, (each piece (by simp)).literal?_eq, later]
      rfl

theorem token?_literal {pieces : List Piece} {text : List Char} (written : Literal pieces text)
    (rest : List Char) : token? (text ++ rest) = some (.scalar (stringValue pieces), rest) := by
  obtain ⟨each⟩ := written
  simp [token?, literal?_pieces each]

/-- What a character is written as is one piece, which denotes the character. -/
theorem exists_piece (c : Char) :
    ∃ piece : Piece, piece.Written (escape c) ∧
      ∀ pieces, charsOf? (piece :: pieces) = (charsOf? pieces).map (c :: ·) := by
  rcases escape_cases c with ⟨letter, escaped, short⟩ | ⟨control, escaped⟩ |
      ⟨visible, noQuote, noBackslash, escaped⟩
  · exact ⟨.plain c, escaped ▸ .letter short, fun pieces => by rw [charsOf?]⟩
  · refine ⟨.code c.toNat, escaped ▸ .code (codeOf?_hexDigit c control), fun pieces => ?_⟩
    rw [charsOf?_code (by omega), Char.ofNat_toNat]
  · exact ⟨.plain c, escaped ▸ .plain visible noQuote noBackslash, fun pieces => by rw [charsOf?]⟩

theorem exists_literal (text : String) :
    ∃ pieces, Literal pieces (writeString text) ∧ stringValue pieces = .string text := by
  have spelled : ∀ chars : List Char, ∃ pieces : List (Piece × List Char),
      (∀ piece ∈ pieces, piece.1.Written piece.2) ∧ pieces.flatMap (·.2) = chars.flatMap escape ∧
        charsOf? (pieces.map (·.1)) = some chars := by
    intro chars
    induction chars with
    | nil => exact ⟨[], by simp, rfl, rfl⟩
    | cons c chars ih =>
        obtain ⟨pieces, each, same, denoted⟩ := ih
        obtain ⟨piece, written, denotes⟩ := exists_piece c
        refine ⟨(piece, escape c) :: pieces, List.forall_mem_cons.mpr ⟨written, each⟩,
          by simp [same], ?_⟩
        rw [List.map_cons, denotes, denoted]
        rfl
  obtain ⟨pieces, each, same, denoted⟩ := spelled text.toList
  refine ⟨pieces.map (·.1), ?_, by simp [stringValue, denoted]⟩
  have written := Literal.quoted each
  rwa [same] at written

/-- How a value that is neither an array nor an object may be written. -/
inductive ScalarText : Value → List Char → Prop where
  | null : ScalarText .null ['n', 'u', 'l', 'l']
  | isTrue : ScalarText (.bool true) ['t', 'r', 'u', 'e']
  | isFalse : ScalarText (.bool false) ['f', 'a', 'l', 's', 'e']
  | number {numeral : Numeral} (proper : numeral.Proper) :
      ScalarText (.number numeral.value) numeral.text
  | string {pieces : List Piece} {text : List Char} (written : Literal pieces text) :
      ScalarText (stringValue pieces) text

theorem token?_scalar {value : Value} {text : List Char} (written : ScalarText value text)
    (fresh : Fresh rest) : token? (text ++ rest) = some (.scalar value, rest) := by
  cases written with
  | null => rfl
  | isTrue => rfl
  | isFalse => rfl
  | number proper => exact token?_numeral proper fresh
  | string written => exact token?_literal written rest

theorem ScalarText.ne_nil {value : Value} {text : List Char} (written : ScalarText value text) :
    text ≠ [] := by
  -- There is no token in an empty text.
  rintro rfl
  simpa [token?] using token?_scalar written (by simp [Fresh] : Fresh [])

end Json

end ModelLint
