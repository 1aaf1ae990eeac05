import ModelLint.Descriptor
import ModelLint.Proofs.Text

namespace ModelLint.Template

open ModelLint.Text

/-! Templates and the text put in for their placeholders.

A placeholder stands at a place of the template, whatever stands around it. What a template
becomes is said here place by place: each character gives way to a part of the message, and all
of the parts are found by looking at the template alone. -/

/-- The text inside a pair of braces is the number of an argument. -/
def Denotes (args : List String) (inner : List Char) (value : String) : Prop :=
  ∃ sign digits, (sign = [] ∨ sign = ['+']) ∧ digits ≠ [] ∧ (∀ c ∈ digits, c.isDigit = true) ∧
    inner = sign ++ digits ∧ args[digitsValue digits]? = some value

/-- A placeholder starts at a place of a text. -/
structure StandsAt (args : List String) (text : List Char) (start : Nat) (inner : List Char)
    (value : String) : Prop where
  denotes : Denotes args inner value
  spelled : '\x7b' :: inner ++ ['\x7d'] <+: text.drop start

/-- The place is that of a brace, or between the braces, of a placeholder. -/
def Covered (args : List String) (text : List Char) (place : Nat) : Prop :=
  ∃ start inner value, StandsAt args text start inner value ∧ start ≤ place ∧
    place < start + inner.length + 2

/-- The parts of a message, one for each character of the text: the argument where a placeholder
starts, nothing in the rest of the placeholder, and the character itself everywhere else. -/
structure Replaces (args : List String) (text : List Char) (parts : List (List Char)) : Prop where
  length : parts.length = text.length
  start {start inner value} (stands : StandsAt args text start inner value) :
    parts[start]? = some value.toList
  inside {start inner value place} (stands : StandsAt args text start inner value)
    (behind : start < place) (before : place < start + inner.length + 2) : parts[place]? = some []
  outside {place c} (here : text[place]? = some c) (free : ¬ Covered args text place) :
    parts[place]? = some [c]

variable {args : List String} {text inner front behind : List Char} {value : String} {start : Nat}

theorem after?_plus_digits {digits : List Char} (decimal : ∀ c ∈ digits, c.isDigit = true) :
    after? ['+'] digits = none := by
  cases digits with
  | nil => rfl
  | cons c rest =>
      have other : '+' ≠ c := fun same => absurd (decimal c List.mem_cons_self) (by simp [← same])
      exact if_neg other

theorem index?_eq_some_iff {index : Nat} :
    index? inner = some index ↔
      ∃ sign digits, (sign = [] ∨ sign = ['+']) ∧ digits ≠ [] ∧
        (∀ c ∈ digits, c.isDigit = true) ∧ inner = sign ++ digits ∧ digitsValue digits = index := by
  simp only [index?, Option.ite_none_right_eq_some, List.all_eq_true, Option.some.injEq]
  constructor
  · rintro ⟨⟨given, decimal⟩, same⟩
    cases signed : after? ['+'] inner with
    | none =>
        simp only [signed, Option.getD_none] at given decimal same
        exact ⟨[], inner, .inl rfl, given, decimal, rfl, same⟩
    | some digits =>
        simp only [signed, Option.getD_some] at given decimal same
        exact ⟨['+'], digits, .inr rfl, given, decimal, after?_eq_some_iff.mp signed, same⟩
  · rintro ⟨sign, digits, rfl | rfl, given, decimal, rfl, same⟩
    · simp only [after?_plus_digits decimal, Option.getD_none]
      exact ⟨⟨given, decimal⟩, same⟩
    · simp only [after?_eq_some_iff.mpr rfl, Option.getD_some]
      exact ⟨⟨given, decimal⟩, same⟩

theorem argument?_eq_some_iff : argument? args inner = some value ↔ Denotes args inner value := by
  simp only [argument?, Option.bind_eq_bind, Option.bind_eq_some_iff, index?_eq_some_iff, Denotes]
  constructor
  · rintro ⟨index, ⟨sign, digits, signed, given, decimal, split, rfl⟩, found⟩
    exact ⟨sign, digits, signed, given, decimal, split, found⟩
  · rintro ⟨sign, digits, signed, given, decimal, split, found⟩
    exact ⟨_, ⟨sign, digits, signed, given, decimal, split, rfl⟩, found⟩

namespace Denotes

theorem value_eq {other : String} (denotes : Denotes args inner value)
    (again : Denotes args inner other) : other = value := by
  rw [← argument?_eq_some_iff] at denotes again
  exact Option.some.inj (again.symm.trans denotes)

theorem notMem {mark : Char} (denotes : Denotes args inner value) (other : mark ≠ '+')
    (notDigit : mark.isDigit = false) : mark ∉ inner := by
  obtain ⟨sign, digits, signed, _, decimal, rfl, _⟩ := denotes
  intro member
  rcases List.mem_append.mp member with inSign | inDigits
  · rcases signed with rfl | rfl
    · exact List.not_mem_nil inSign
    · exact other (List.mem_singleton.mp inSign)
  · exact absurd (decimal mark inDigits) (by simp [notDigit])

theorem noOpen (denotes : Denotes args inner value) : '\x7b' ∉ inner :=
  denotes.notMem (by decide) (by decide)

theorem noClose (denotes : Denotes args inner value) : '\x7d' ∉ inner :=
  denotes.notMem (by decide) (by decide)

end Denotes

theorem placeholder?_eq_some_iff :
    placeholder? args text = some (value, behind) ↔
      ∃ inner, text = inner ++ '\x7d' :: behind ∧ Denotes args inner value := by
  simp only [placeholder?, Option.bind_eq_bind, Option.bind_eq_some_iff]
  constructor
  · rintro ⟨⟨inner, rest⟩, cut, named, found, same⟩
    obtain ⟨rfl, rfl⟩ : named = value ∧ rest = behind := by simpa using same
    exact ⟨inner, (cut?_eq_some cut).1, argument?_eq_some_iff.mp found⟩
  · rintro ⟨inner, rfl, denotes⟩
    exact ⟨(inner, behind), cut?_append denotes.noClose, value,
      argument?_eq_some_iff.mpr denotes, rfl⟩

namespace StandsAt

theorem ends_le (stands : StandsAt args text start inner value) :
    start + inner.length + 2 ≤ text.length := by
  have fits := stands.spelled.length_le
  simp only [List.length_cons, List.length_append, List.length_nil, List.length_drop] at fits
  omega

theorem opens (stands : StandsAt args text start inner value) : text[start]? = some '\x7b' := by
  obtain ⟨rest, split⟩ := stands.spelled
  rw [← List.head?_drop, ← split]
  rfl

theorem append (stands : StandsAt args front start inner value) :
    StandsAt args (front ++ behind) start inner value := by
  have ends := stands.ends_le
  refine ⟨stands.denotes, ?_⟩
  rw [List.drop_append_of_le_length (by omega)]
  exact stands.spelled.trans (List.prefix_append _ _)

end StandsAt

theorem standsAt_append_iff :
    StandsAt args (front ++ behind) (front.length + start) inner value ↔
      StandsAt args behind start inner value := by
  constructor
  · rintro ⟨denotes, spelled⟩
    rw [List.drop_length_add_append] at spelled
    exact ⟨denotes, spelled⟩
  · rintro ⟨denotes, spelled⟩
    refine ⟨denotes, ?_⟩
    rwa [List.drop_length_add_append]

/-- No placeholder reaches from the first half of a text into the second. -/
def Apart (args : List String) (front behind : List Char) : Prop :=
  ∀ start inner value, StandsAt args (front ++ behind) start inner value →
    StandsAt args front start inner value ∨
      ∃ later, start = front.length + later ∧ StandsAt args behind later inner value

/-- The message of a text is put together from those of two halves that are apart. -/
theorem Replaces.append {parts others : List (List Char)} (apart : Apart args front behind)
    (left : Replaces args front parts) (right : Replaces args behind others) :
    Replaces args (front ++ behind) (parts ++ others) where
  length := by rw [List.length_append, left.length, right.length, List.length_append]
  start := by
    intro start inner value stands
    rcases apart start inner value stands with early | ⟨later, rfl, late⟩
    · have ends := early.ends_le
      rw [List.getElem?_append_left (by rw [left.length]; omega)]
      exact left.start early
    · rw [← left.length, List.getElem?_append_right (by omega), Nat.add_sub_cancel_left]
      exact right.start late
  inside := by
    intro start inner value place stands after before
    rcases apart start inner value stands with early | ⟨later, rfl, late⟩
    · have ends := early.ends_le
      rw [List.getElem?_append_left (by rw [left.length]; omega)]
      exact left.inside early after before
    · rw [List.getElem?_append_right (by rw [left.length]; omega), left.length]
      exact right.inside late (by omega) (by omega)
  outside := by
    intro place c here free
    rcases Nat.lt_or_ge place front.length with early | late
    · rw [List.getElem?_append_left early] at here
      rw [List.getElem?_append_left (by rwa [left.length])]
      refine left.outside here fun ⟨start, inner, value, stands, reach⟩ => free ?_
      exact ⟨start, inner, value, stands.append, reach⟩
    · rw [List.getElem?_append_right late] at here
      rw [List.getElem?_append_right (by rwa [left.length]), left.length]
      refine right.outside here fun ⟨start, inner, value, stands, reach⟩ => free ?_
      exact ⟨front.length + start, inner, value, standsAt_append_iff.mpr stands, by omega⟩

theorem replaces_nil : Replaces args [] [] := by
  have none {start inner value} : ¬ StandsAt args [] start inner value := fun stands =>
    absurd stands.ends_le (by simp)
  exact ⟨rfl, fun stands => absurd stands none, fun stands => absurd stands none, by simp⟩

theorem replaces_char (c : Char) : Replaces args [c] [[c]] := by
  have none {start inner value} : ¬ StandsAt args [c] start inner value := fun stands =>
    absurd stands.ends_le (by simp)
  refine ⟨rfl, fun stands => absurd stands none, fun stands => absurd stands none, ?_⟩
  intro place d here _
  cases place with
  | zero => simpa using here
  | succ place => simp at here

/-- A text with no placeholder at its start. -/
theorem apart_char {c : Char} (free : ∀ inner value, ¬ StandsAt args (c :: text) 0 inner value) :
    Apart args [c] text := by
  intro start inner value stands
  cases start with
  | zero => exact absurd stands (free inner value)
  | succ later =>
      refine .inr ⟨later, Nat.add_comm later 1, ?_⟩
      exact ⟨stands.denotes, stands.spelled⟩

/-- The only placeholder that starts inside a placeholder is that placeholder itself. -/
theorem standsAt_placeholder {other : List Char} {otherValue : String}
    (denotes : Denotes args inner value)
    (stands : StandsAt args ('\x7b' :: inner ++ ['\x7d'] ++ behind) start other otherValue) :
    (start = 0 ∧ other = inner ∧ otherValue = value) ∨ inner.length + 2 ≤ start := by
  cases start with
  | zero =>
      obtain ⟨rest, split⟩ := stands.spelled
      have same : other ++ '\x7d' :: rest = inner ++ '\x7d' :: behind := by simpa using split
      -- Neither number holds a closing brace, so both end where the text is first cut.
      have cut : cut? '\x7d' (other ++ '\x7d' :: rest) = some (other, rest) :=
        cut?_append stands.denotes.noClose
      rw [same, cut?_append denotes.noClose, Option.some.injEq, Prod.mk.injEq] at cut
      obtain rfl : inner = other := cut.1
      exact .inl ⟨rfl, rfl, denotes.value_eq stands.denotes⟩
  | succ place =>
      -- An opening brace would have to stand between the braces, or be the closing one.
      refine .inr (Nat.le_of_not_lt fun early => ?_)
      have here := stands.opens
      rw [List.append_assoc, List.cons_append, List.getElem?_cons_succ, ← List.append_assoc,
        List.getElem?_append_left (by simp; omega)] at here
      rcases List.mem_append.mp (List.mem_of_getElem? here) with inInner | last
      · exact denotes.noOpen inInner
      · exact absurd (List.mem_singleton.mp last) (by decide)

theorem standsAt_whole (denotes : Denotes args inner value) :
    StandsAt args ('\x7b' :: inner ++ ['\x7d']) 0 inner value :=
  ⟨denotes, List.prefix_refl _⟩

theorem apart_placeholder (denotes : Denotes args inner value) (behind : List Char) :
    Apart args ('\x7b' :: inner ++ ['\x7d']) behind := by
  intro start other otherValue stands
  rcases standsAt_placeholder denotes stands with ⟨rfl, rfl, rfl⟩ | late
  · exact .inl (standsAt_whole denotes)
  · have split : start = ('\x7b' :: inner ++ ['\x7d']).length + (start - (inner.length + 2)) := by
      simp
      omega
    rw [split] at stands
    exact .inr ⟨_, split, standsAt_append_iff.mp stands⟩

theorem replaces_placeholder (denotes : Denotes args inner value) :
    Replaces args ('\x7b' :: inner ++ ['\x7d'])
      (value.toList :: List.replicate (inner.length + 1) []) := by
  have only {start other otherValue}
      (stands : StandsAt args ('\x7b' :: inner ++ ['\x7d']) start other otherValue) :
      start = 0 ∧ other = inner ∧ otherValue = value := by
    have ends := stands.ends_le
    rw [← List.append_nil (_ :: _ ++ _)] at stands
    refine (standsAt_placeholder denotes stands).resolve_right fun late => ?_
    simp at ends
    omega
  refine ⟨by simp, fun stands => ?_, fun stands behind before => ?_, fun here free => ?_⟩
  · obtain ⟨rfl, rfl, rfl⟩ := only stands
    rfl
  · obtain ⟨rfl, rfl, rfl⟩ := only stands
    rw [List.getElem?_cons, if_neg (by omega), List.getElem?_replicate_of_lt (by omega)]
  · obtain ⟨inBounds, _⟩ := List.getElem?_eq_some_iff.mp here
    refine absurd ⟨0, inner, value, standsAt_whole denotes, Nat.zero_le _, ?_⟩ free
    simp only [List.length_append, List.length_cons, List.length_nil] at inBounds
    omega

theorem not_standsAt_of_none (none : placeholder? args text = none) :
    ¬ StandsAt args ('\x7b' :: text) 0 inner value := by
  rintro ⟨denotes, rest, split⟩
  have same : text = inner ++ '\x7d' :: rest := by simpa using split.symm
  rw [placeholder?_eq_some_iff.mpr ⟨inner, same, denotes⟩] at none
  contradiction

theorem not_standsAt_of_ne {c : Char} (other : c ≠ '\x7b') :
    ¬ StandsAt args (c :: text) 0 inner value := by
  intro stands
  exact other (Option.some.inj stands.opens)

theorem Replaces.cons {parts : List (List Char)} {c : Char}
    (free : ∀ inner value, ¬ StandsAt args (c :: text) 0 inner value)
    (replaces : Replaces args text parts) : Replaces args (c :: text) ([c] :: parts) :=
  (replaces_char c).append (apart_char free) replaces

theorem exists_replaces_fill (args : List String) (text : List Char) :
    ∃ parts, Replaces args text parts ∧ fill args text = parts.flatten := by
  fun_induction fill args text with
  | case1 => exact ⟨[], replaces_nil, rfl⟩
  | case2 rest value behind found ih =>
      obtain ⟨inner, rfl, denotes⟩ := placeholder?_eq_some_iff.mp found
      obtain ⟨parts, replaces, filled⟩ := ih
      refine ⟨(value.toList :: List.replicate (inner.length + 1) []) ++ parts, ?_, ?_⟩
      · have whole := (replaces_placeholder denotes).append (apart_placeholder denotes behind)
          replaces
        rwa [List.append_assoc] at whole
      · simp [filled]
  | case3 rest none ih =>
      obtain ⟨parts, replaces, filled⟩ := ih
      exact ⟨_, replaces.cons fun _ _ => not_standsAt_of_none none, by rw [filled]; rfl⟩
  | case4 c rest other ih =>
      obtain ⟨parts, replaces, filled⟩ := ih
      exact ⟨_, replaces.cons fun _ _ => not_standsAt_of_ne other, by rw [filled]; rfl⟩

theorem Replaces.parts_eq {parts others : List (List Char)} (replaces : Replaces args text parts)
    (again : Replaces args text others) : others = parts := by
  refine List.ext_getElem? fun place => ?_
  rcases Nat.lt_or_ge place text.length with within | beyond
  · by_cases covered : Covered args text place
    · obtain ⟨start, inner, value, stands, reached, before⟩ := covered
      rcases Nat.eq_or_lt_of_le reached with rfl | behind
      · rw [replaces.start stands, again.start stands]
      · rw [replaces.inside stands behind before, again.inside stands behind before]
    · have here := List.getElem?_eq_getElem within
      rw [replaces.outside here covered, again.outside here covered]
  · rw [List.getElem?_eq_none (by rwa [again.length]),
      List.getElem?_eq_none (by rwa [replaces.length])]

end ModelLint.Template

namespace ModelLint.Descriptor

open ModelLint.Template

/-- The message of a rule is its template with all of the placeholders replaced at once. There is
one way to replace them, and it looks at no text but that of the template: an argument is not read
for placeholders, and a brace that opens none keeps no other brace from opening one. -/
theorem format_replaces_at_once (rule : Descriptor) (args : List String) :
    (∃ parts, Replaces args rule.message.toList parts) ∧
      ∀ parts, Replaces args rule.message.toList parts →
        rule.format args = .ofList parts.flatten := by
  obtain ⟨parts, replaces, filled⟩ := exists_replaces_fill args rule.message.toList
  refine ⟨⟨parts, replaces⟩, fun others again => ?_⟩
  rw [replaces.parts_eq again, Descriptor.format, Template.format, filled]

end ModelLint.Descriptor
