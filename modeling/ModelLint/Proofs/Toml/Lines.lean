import Mathlib.Data.List.TakeDrop
import ModelLint.Toml.Reader

namespace ModelLint.Toml

/-! Texts with further lines below them.

What a reader takes from a text it takes as well when further lines follow: nothing that is read
goes on behind a line break but texts in three quotes and arrays, and these have been read to their
closing marks. This module has the parts of a line, blanks and comments included. -/

variable {α β : Type} {read : Reading α}

/-- The reader takes the same from a text with further lines below it. -/
def Local (read : Reading α) : Prop :=
  ∀ text value rest, read text = some (value, rest) →
    ∀ more, read (text ++ '\n' :: more) = some (value, rest ++ '\n' :: more)

theorem Local.lines {text rest : List Char} {value : α} (isLocal : Local read)
    (found : read text = some (value, rest)) (more : List Char) :
    read (text ++ '\n' :: more) = some (value, rest ++ '\n' :: more) :=
  isLocal text value rest found more

theorem Local.map (isLocal : Local read) (f : α → β) :
    Local fun text => (read text).map fun (value, behind) => (f value, behind) := by
  intro text value rest found more
  obtain ⟨⟨inner, behind⟩, taken, same⟩ := Option.map_eq_some_iff.mp found
  cases same
  exact Option.map_eq_some_iff.mpr ⟨_, isLocal.lines taken more, rfl⟩

theorem dropWhile_lines {p : Char → Bool} (stops : p '\n' = false) (text more : List Char) :
    (text ++ '\n' :: more).dropWhile p = text.dropWhile p ++ '\n' :: more := by
  induction text with
  | nil => simp [stops]
  | cons c text ih => by_cases here : p c = true <;> simp [here, ih]

theorem takeWhile_lines {p : Char → Bool} (stops : p '\n' = false) (text more : List Char) :
    (text ++ '\n' :: more).takeWhile p = text.takeWhile p := by
  induction text with
  | nil => simp [stops]
  | cons c text ih => by_cases here : p c = true <;> simp [here, ih]

theorem span_lines {p : Char → Bool} (stops : p '\n' = false) (text more : List Char) :
    (text ++ '\n' :: more).span p = ((text.span p).1, (text.span p).2 ++ '\n' :: more) := by
  simp only [List.span_eq_takeWhile_dropWhile, takeWhile_lines stops, dropWhile_lines stops]

theorem head?_lines {c : Char} {text : List Char} (apart : text.head? ≠ some c) (other : c ≠ '\n')
    (more : List Char) : (text ++ '\n' :: more).head? ≠ some c := by
  cases text with
  | nil => simpa using other.symm
  | cons d text => exact apart

theorem skipSpace_lines (text more : List Char) :
    skipSpace (text ++ '\n' :: more) = skipSpace text ++ '\n' :: more :=
  dropWhile_lines (by decide) text more

theorem skipSpace_mark {text rest : List Char} {c : Char} (skipped : skipSpace text = c :: rest)
    (more : List Char) : skipSpace (text ++ '\n' :: more) = c :: (rest ++ '\n' :: more) := by
  rw [skipSpace_lines, skipped, List.cons_append]

theorem notReturn_lines {c : Char} {rest : List Char}
    (notReturn : c = '\r' → rest.head? ≠ some '\n') (apart : c :: rest ≠ ['\r'])
    (more : List Char) :
    c = '\r' → (rest ++ '\n' :: more).head? ≠ some '\n' := by
  intro isReturn
  cases rest with
  | nil => exact absurd (by rw [isReturn]) apart
  | cons d rest => exact notReturn isReturn

theorem skipLines_cons {inComment : Bool} {c : Char} {rest : List Char} (notFeed : c ≠ '\n')
    (notReturn : c = '\r' → rest.head? ≠ some '\n') :
    skipLines inComment (c :: rest) =
      if inComment ∧ isLineChar c then skipLines true rest
      else if !inComment ∧ isSpace c then skipLines false rest
      else if !inComment ∧ c = '#' then skipLines true rest
      else c :: rest := by
  rw [skipLines]
  · exact notFeed
  · rintro behind isReturn rfl
    exact notReturn isReturn rfl

theorem ne_return_of_skipped {c : Char}
    (skipped : isLineChar c = true ∨ isSpace c = true ∨ c = '#') : c ≠ '\r' := by
  rintro rfl
  exact absurd skipped (by decide)

-- A carriage return at the very end would become a line break with the one behind it. It is the
-- one text that is not passed over alike.
theorem skipLines_lines {inComment : Bool} {text start : List Char}
    (skipped : skipLines inComment text = start) (apart : start ≠ ['\r']) (more : List Char) :
    skipLines inComment (text ++ '\n' :: more) =
      if start = [] then skipLines false more else start ++ '\n' :: more := by
  fun_induction skipLines inComment text with
  | case1 => simp [← skipped, skipLines]
  | case2 inComment rest ih => simpa only [List.cons_append, skipLines] using ih skipped
  | case3 inComment rest ih => simpa only [List.cons_append, skipLines] using ih skipped
  | case4 inComment c rest notFeed _ comment ih =>
      have notReturn := ne_return_of_skipped (.inl comment.2)
      rw [List.cons_append, skipLines_cons notFeed (absurd · notReturn), if_pos comment, ih skipped]
  | case5 inComment c rest notFeed _ noComment space =>
      rename_i ih
      have notReturn := ne_return_of_skipped (.inr (.inl space.2))
      rw [List.cons_append, skipLines_cons notFeed (absurd · notReturn), if_neg noComment,
        if_pos space, ih skipped]
  | case6 inComment c rest notFeed _ noComment noSpace =>
      rename_i hash ih
      have notReturn := ne_return_of_skipped (.inr (.inr hash.2))
      rw [List.cons_append, skipLines_cons notFeed (absurd · notReturn), if_neg noComment,
        if_neg noSpace, if_pos hash, ih skipped]
  | case7 inComment c rest notFeed notBreak noComment noSpace =>
      rename_i noHash
      cases skipped
      have notReturn (isReturn : c = '\r') : rest.head? ≠ some '\n' := by
        intro feed
        obtain ⟨behind, split⟩ := List.head?_eq_some_iff.mp feed
        exact notBreak behind isReturn split
      rw [List.cons_append, skipLines_cons notFeed (notReturn_lines notReturn apart more),
        if_neg noComment, if_neg noSpace, if_neg noHash]
      rfl

theorem skipLines_mark {text rest : List Char} {c : Char}
    (skipped : skipLines false text = c :: rest) (mark : c :: rest ≠ ['\r']) (more : List Char) :
    skipLines false (text ++ '\n' :: more) = c :: (rest ++ '\n' :: more) := by
  rw [skipLines_lines skipped mark, if_neg (List.cons_ne_nil c rest), List.cons_append]

theorem untilQuote?_local {quote : Char} {escapes : Bool} :
    Local (untilQuote? quote escapes) := by
  intro text inside rest found more
  fun_induction untilQuote? quote escapes text generalizing inside rest with
  | case1 => contradiction
  | case2 =>
      cases found
      simp [untilQuote?]
  | case3 => contradiction
  | case4 =>
      cases found
      simp [untilQuote?]
  | case5 c d behind apart escaped ih =>
      obtain ⟨⟨inner, tail⟩, taken, same⟩ := Option.map_eq_some_iff.mp found
      cases same
      rw [List.cons_append, List.cons_append, untilQuote?, if_neg apart, if_pos escaped,
        ih _ _ taken]
      rfl
  | case6 c d behind apart plain ih =>
      obtain ⟨⟨inner, tail⟩, taken, same⟩ := Option.map_eq_some_iff.mp found
      cases same
      rw [List.cons_append, List.cons_append, untilQuote?, if_neg apart, if_neg plain,
        ← List.cons_append, ih _ _ taken]
      rfl

theorem untilTripleQuote?_local {quote : Char} {escapes : Bool} (other : quote ≠ '\n') :
    Local (untilTripleQuote? quote escapes) := by
  intro text inside rest found more
  have sameRun (text : List Char) : ((text ++ '\n' :: more).takeWhile (· = quote)).length =
      (text.takeWhile (· = quote)).length :=
    congrArg List.length (takeWhile_lines (decide_eq_false other.symm) text more)
  fun_induction untilTripleQuote? quote escapes text generalizing inside rest with
  | case1 => contradiction
  | case2 => contradiction
  | case3 c d behind text run =>
      rename_i enough kept
      cases found
      have within : kept + 3 ≤ text.length := by
        have short : run ≤ text.length := (List.takeWhile_sublist _).length_le
        omega
      have cut : (text ++ '\n' :: more).drop (kept + 3) = text.drop (kept + 3) ++ '\n' :: more :=
        List.drop_append_of_le_length within
      rw [List.cons_append, List.cons_append, untilTripleQuote?, ← List.cons_append,
        ← List.cons_append, sameRun, if_pos enough, ← cut]
  | case4 c d behind text run short =>
      rename_i escaped ih
      obtain ⟨⟨inner, tail⟩, taken, same⟩ := Option.map_eq_some_iff.mp found
      cases same
      rw [List.cons_append, List.cons_append, untilTripleQuote?, ← List.cons_append,
        ← List.cons_append, sameRun, if_neg short, if_pos escaped, ih _ _ taken]
      rfl
  | case5 c d behind text run short =>
      rename_i plain ih
      obtain ⟨⟨inner, tail⟩, taken, same⟩ := Option.map_eq_some_iff.mp found
      cases same
      rw [List.cons_append, List.cons_append, untilTripleQuote?, ← List.cons_append,
        ← List.cons_append, sameRun, if_neg short, if_neg plain, ih _ _ taken]
      rfl

/-- The text that is meant by what stands between quotes. -/
def content? (lines escapes : Bool) (raw : List Char) : Option String := do
  let plain ← withPlainLines? lines raw
  let chars ← if escapes then unescape? false plain else some plain
  return String.ofList chars

theorem content?_beside (lines escapes : Bool) (raw behind : List Char) :
    (do
      let plain ← withPlainLines? lines raw
      let chars ← if escapes then unescape? false plain else some plain
      return (String.ofList chars, behind)) = (content? lines escapes raw).map (·, behind) := by
  rw [content?]
  cases withPlainLines? lines raw with
  | none => rfl
  | some plain =>
      cases escapes with
      | false => rfl
      | true => cases unescaped : unescape? false plain <;> simp [unescaped]

theorem oneLine?_eq (quote : Char) (escapes : Bool) (text : List Char) :
    oneLine? quote escapes text = (untilQuote? quote escapes text).bind fun taken =>
      (content? false escapes taken.1).map (·, taken.2) := by
  rw [oneLine?]
  exact Option.bind_congr fun taken _ => content?_beside false escapes taken.1 taken.2

theorem manyLines?_eq (quote : Char) (escapes : Bool) (text : List Char) :
    manyLines? quote escapes text =
      (untilTripleQuote? quote escapes (dropLineBreak text)).bind fun taken =>
        (content? true escapes taken.1).map (·, taken.2) := by
  rw [manyLines?]
  exact Option.bind_congr fun taken _ => content?_beside true escapes taken.1 taken.2

theorem oneLine?_local (quote : Char) (escapes : Bool) : Local (oneLine? quote escapes) := by
  intro text value rest found more
  simp only [oneLine?_eq, Option.bind_eq_some_iff, Option.map_eq_some_iff] at found ⊢
  obtain ⟨⟨raw, behind⟩, taken, value, meant, same⟩ := found
  cases same
  exact ⟨_, untilQuote?_local.lines taken more, value, meant, rfl⟩

theorem dropLineBreak_cons {c : Char} {rest : List Char} (notFeed : c ≠ '\n')
    (notReturn : c = '\r' → rest.head? ≠ some '\n') : dropLineBreak (c :: rest) = c :: rest := by
  rw [dropLineBreak]
  · rintro behind ⟨⟩
    exact notFeed rfl
  · rintro behind ⟨⟩
    exact notReturn rfl rfl

theorem dropLineBreak_lines {text : List Char} (nonempty : text ≠ []) (apart : text ≠ ['\r'])
    (more : List Char) :
    dropLineBreak (text ++ '\n' :: more) = dropLineBreak text ++ '\n' :: more := by
  obtain ⟨c, rest, rfl⟩ := List.exists_cons_of_ne_nil nonempty
  by_cases feed : c = '\n'
  · subst feed
    rfl
  by_cases both : c = '\r' ∧ rest.head? = some '\n'
  · obtain ⟨rfl, first⟩ := both
    obtain ⟨behind, rfl⟩ := List.head?_eq_some_iff.mp first
    rfl
  · rw [not_and] at both
    rw [dropLineBreak_cons feed both, List.cons_append,
      dropLineBreak_cons feed (notReturn_lines both apart more)]

theorem manyLines?_local {quote : Char} (escapes : Bool) (other : quote ≠ '\n') :
    Local (manyLines? quote escapes) := by
  intro text value rest found more
  simp only [manyLines?_eq, Option.bind_eq_some_iff, Option.map_eq_some_iff] at found ⊢
  obtain ⟨⟨raw, behind⟩, taken, value, meant, same⟩ := found
  cases same
  have nonempty : text ≠ [] := by
    rintro rfl
    contradiction
  have apart : text ≠ ['\r'] := by
    rintro rfl
    contradiction
  rw [dropLineBreak_lines nonempty apart]
  exact ⟨_, (untilTripleQuote?_local other).lines taken more, value, meant, rfl⟩

theorem keyName?_bare {text : List Char} (basic : text.head? ≠ some '"')
    (literal : text.head? ≠ some '\'') :
    keyName? text = if text.takeWhile isBareKeyChar = [] then none
      else some (String.ofList (text.takeWhile isBareKeyChar), text.dropWhile isBareKeyChar) := by
  rw [keyName?, List.span_eq_takeWhile_dropWhile]
  · split
    · rename_i empty
      simp_all
    · rename_i name rest nonempty same
      cases same
      rw [if_neg nonempty]
  · rintro rest rfl
    exact basic rfl
  · rintro rest rfl
    exact literal rfl

theorem keyName?_local : Local keyName? := by
  intro text name rest found more
  by_cases basic : text.head? = some '"'
  · obtain ⟨inside, rfl⟩ := List.head?_eq_some_iff.mp basic
    exact (oneLine?_local _ _).lines found more
  · by_cases literal : text.head? = some '\''
    · obtain ⟨inside, rfl⟩ := List.head?_eq_some_iff.mp literal
      exact (oneLine?_local _ _).lines found more
    · rw [keyName?_bare basic literal] at found
      rw [keyName?_bare (head?_lines basic (by decide) more) (head?_lines literal (by decide) more),
        takeWhile_lines (by decide), dropWhile_lines (by decide)]
      split at found
      · contradiction
      · rename_i nonempty
        cases found
        rw [if_neg nonempty]

theorem keyNames?_local (limit : Nat) : Local (keyNames? limit) := by
  induction limit with
  | zero =>
      intro text names rest found more
      contradiction
  | succ limit ih =>
      intro text names rest found more
      simp only [keyNames?, bind, Option.bind_eq_some_iff, skipSpace_lines] at found ⊢
      obtain ⟨⟨name, behind⟩, first, later⟩ := found
      refine ⟨_, keyName?_local.lines first more, ?_⟩
      simp only [skipSpace_lines]
      split at later
      · rename_i inner dot
        rw [dot]
        obtain ⟨⟨others, tail⟩, taken, same⟩ := Option.bind_eq_some_iff.mp later
        cases same
        exact Option.bind_eq_some_iff.mpr ⟨_, ih.lines taken more, rfl⟩
      · cases later
        split
        · cases skipped : skipSpace behind <;> simp_all
        · rfl

theorem key?_local : Local key? := by
  intro text key rest found more
  simp only [key?, bind, Option.bind_eq_some_iff] at found ⊢
  obtain ⟨⟨names, behind⟩, taken, last, isLast, same⟩ := found
  cases same
  exact ⟨_, (keyNames?_local _).lines taken more, last, isLast, rfl⟩

theorem word_lines (text more : List Char) :
    word (text ++ '\n' :: more) = ((word text).1, (word text).2 ++ '\n' :: more) := by
  have stops : isWordChar '\n' = false := by decide
  simp only [word, span_lines stops]
  generalize text.span isWordChar = parts
  obtain ⟨first, rest⟩ := parts
  match rest with
  | [] => rfl
  | [c] =>
      by_cases blank : c = ' '
      · simp [blank]
      · simp [blank]
  | c :: d :: behind =>
      by_cases blank : c = ' '
      · subst blank
        have cut := span_lines stops (d :: behind) more
        simp only [List.cons_append] at cut
        simp only [List.cons_append, List.tail_cons, cut]
        split <;> rfl
      · simp [blank]

theorem scalar_local : Local fun text =>
    (scalar? (word text).1).map fun value => (value, (word text).2) := by
  intro text value rest found more
  obtain ⟨inner, isScalar, same⟩ := Option.map_eq_some_iff.mp found
  cases same
  simp only [word_lines]
  exact Option.map_eq_some_iff.mpr ⟨_, isScalar, rfl⟩

end ModelLint.Toml
