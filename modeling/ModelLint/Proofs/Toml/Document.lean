import ModelLint.Proofs.Toml.Reader
import ModelLint.Proofs.Toml.Table

namespace ModelLint.Toml

/-! Tables written into a text.

A header with lines below it can be written into a text above any of its headers and at its end.
The text is then read as before, and has one table more. Main statement: `parse?_withTable`. -/

/-- A text and the two parts of it above and below one of its line breaks, its start or its end. -/
inductive Splits : (text above below : String) → Prop where
  | atStart (text : String) : Splits text "" text
  | atLine (above below : String) : Splits (above ++ "\n" ++ below) above below
  | atEnd (text : String) : Splits text text ""

/-- The keys and values of lines that have no headers. -/
def bodyFields? (lines : String) : Option (List (String × Value)) :=
  (statementsOf? lines.toList).bind fun body =>
    if body.all Statement.isAssign then documentOf? body else none

/-- Whether the first statement of a text is a header, if there is one. -/
def startsWithHeader (text : String) : Bool :=
  (statementsOf? text.toList).any fun statements => statements.head?.all (!·.isAssign)

/-- Writes a table between two texts. -/
def withTable (name above lines below : String) : String :=
  above ++ "\n[" ++ name ++ "]\n" ++ lines ++ "\n" ++ below

theorem exists_of_bodyFields? {lines : String} {fields : List (String × Value)}
    (isBody : bodyFields? lines = some fields) :
    ∃ body, statementsOf? lines.toList = some body ∧
      (∀ statement ∈ body, statement.isAssign = true) ∧ documentOf? body = some fields := by
  obtain ⟨body, readLines, held⟩ := Option.bind_eq_some_iff.mp isBody
  split at held
  · rename_i assigns
    exact ⟨body, readLines, List.all_eq_true.mp assigns, held⟩
  · contradiction

theorem exists_of_startsWithHeader {text : String} (starts : startsWithHeader text = true) :
    ∃ lower, statementsOf? text.toList = some lower ∧
      ∀ statement, lower.head? = some statement → statement.isAssign = false := by
  obtain ⟨lower, readText, headed⟩ := (Option.any_eq_true _ _).mp starts
  refine ⟨lower, readText, fun statement first => ?_⟩
  simpa [first] using headed

/-- A name that can be written without quotes. -/
def IsBareName (name : String) : Prop :=
  name.toList ≠ [] ∧ ∀ c ∈ name.toList, isBareKeyChar c = true

theorem IsBareName.head?_ne {name : String} (bare : IsBareName name) {c : Char}
    (other : isBareKeyChar c = false) (rest : List Char) :
    (name.toList ++ rest).head? ≠ some c := by
  obtain ⟨nonempty, all⟩ := bare
  obtain ⟨first, others, split⟩ := List.exists_cons_of_ne_nil nonempty
  have isBare := all first (by simp [split])
  rw [split]
  rintro ⟨⟩
  simp [isBare] at other

theorem IsBareName.keyName?_eq {name : String} (bare : IsBareName name) (rest : List Char) :
    keyName? (name.toList ++ ']' :: rest) = some (name, ']' :: rest) := by
  have taken : (name.toList ++ ']' :: rest).takeWhile isBareKeyChar = name.toList := by
    rw [List.takeWhile_append_of_pos bare.2, List.takeWhile_cons_of_neg (by decide),
      List.append_nil]
  have dropped : (name.toList ++ ']' :: rest).dropWhile isBareKeyChar = ']' :: rest := by
    rw [List.dropWhile_append_of_pos bare.2, List.dropWhile_cons_of_neg (by decide)]
  rw [keyName?_bare (bare.head?_ne (by decide) _) (bare.head?_ne (by decide) _), taken, dropped,
    if_neg bare.1, String.ofList_toList]

theorem IsBareName.key?_eq {name : String} (bare : IsBareName name) (rest : List Char) :
    key? (name.toList ++ ']' :: rest) = some (⟨[], name⟩, ']' :: rest) := by
  have unspaced : skipSpace (name.toList ++ ']' :: rest) = name.toList ++ ']' :: rest := by
    obtain ⟨nonempty, all⟩ := bare
    obtain ⟨first, others, split⟩ := List.exists_cons_of_ne_nil nonempty
    have notSpace : ¬ isSpace first = true := by
      intro space
      have isBare := all first (by simp [split])
      simp only [isSpace, Bool.or_eq_true, decide_eq_true_eq] at space
      rcases space with rfl | rfl <;> exact absurd isBare (by decide)
    rw [split, List.cons_append, skipSpace, List.dropWhile_cons_of_neg notSpace]
  rw [key?, nestingLimit, keyNames?, unspaced, bare.keyName?_eq]
  rfl

theorem IsBareName.statementsOf?_header {name : String} (bare : IsBareName name) :
    statementsOf? ('[' :: (name.toList ++ [']'])) = some [.table ⟨[], name⟩] := by
  have unskipped :
      skipLines false ('[' :: (name.toList ++ [']'])) = '[' :: (name.toList ++ [']']) := by
    rw [skipLines_cons (by decide) (absurd · (by decide))]
    rfl
  have header : header? [']'] (name.toList ++ [']']) = some (⟨[], name⟩, []) := by
    rw [header?, bare.key?_eq]
    rfl
  rw [statementsOf?, List.length_cons, statementsWithin_cons unskipped,
    statement?_table (bare.head?_ne (by decide) _), header]
  simp only [Option.map_some, Option.bind_some]
  rw [statementsWithin_blank rfl]
  rfl

theorem dropByteOrderMark_of_ne {text : List Char} (unmarked : text.head? ≠ some '\uFEFF') :
    dropByteOrderMark text = text := by
  rw [dropByteOrderMark]
  rintro rest rfl
  exact unmarked rfl

theorem dropByteOrderMark_lines (text more : List Char) :
    dropByteOrderMark (text ++ '\n' :: more) = dropByteOrderMark text ++ '\n' :: more := by
  by_cases marked : text.head? = some '\uFEFF'
  · obtain ⟨rest, rfl⟩ := List.head?_eq_some_iff.mp marked
    rfl
  · rw [dropByteOrderMark_of_ne marked,
      dropByteOrderMark_of_ne (head?_lines marked (by decide) more)]

theorem parse?_eq_some_iff {text : String} {entries : List (String × Value)} :
    parse? text = some entries ↔
      ∃ statements, statementsOf? (dropByteOrderMark text.toList) = some statements ∧
        documentOf? statements = some entries := by
  simp only [parse?, statementsOf?, bind, Option.bind_eq_some_iff]

theorem statementsOf?_marked (text : List Char) : statementsOf? ('\uFEFF' :: text) = none := by
  have unskipped : skipLines false ('\uFEFF' :: text) = '\uFEFF' :: text := by
    rw [skipLines_cons (by decide) (absurd · (by decide))]
    rfl
  have noName : keyName? ('\uFEFF' :: text) = none := by
    rw [keyName?_bare (by simp) (by simp), List.takeWhile_cons_of_neg (by decide), if_pos rfl]
  have unspaced : skipSpace ('\uFEFF' :: text) = '\uFEFF' :: text := by
    rw [skipSpace, List.dropWhile_cons_of_neg (by decide)]
  rw [statementsOf?, List.length_cons, statementsWithin_cons unskipped,
    statement?_assign (by simp), pair?, key?, nestingLimit, keyNames?, unspaced, noName]
  rfl

theorem Splits.statementsOf?_eq {text above below : String} {upper lower : List Statement}
    (splits : Splits text above below)
    (isAbove : statementsOf? (dropByteOrderMark above.toList) = some upper)
    (isBelow : statementsOf? below.toList = some lower) :
    statementsOf? (dropByteOrderMark text.toList) = some (upper ++ lower) := by
  cases splits with
  | atStart =>
      cases isAbove
      rw [dropByteOrderMark_of_ne, isBelow]
      · rfl
      · intro marked
        obtain ⟨rest, split⟩ := List.head?_eq_some_iff.mp marked
        rw [split, statementsOf?_marked] at isBelow
        contradiction
  | atLine =>
      have spelled : (above ++ "\n" ++ below).toList = above.toList ++ '\n' :: below.toList := by
        simp
      rw [spelled, dropByteOrderMark_lines]
      exact statementsOf?_lines isAbove isBelow
  | atEnd =>
      cases isBelow
      rw [isAbove, List.append_nil]

/-- A table can be written into a text above any of its headers and at its end. -/
theorem parse?_withTable {text above below lines name : String}
    {entries fields : List (String × Value)}
    (whole : parse? text = some entries) (absent : entries.lookup name = none)
    (bare : IsBareName name) (splits : Splits text above below)
    (isAbove : (parse? above).isSome) (starts : startsWithHeader below)
    (isBody : bodyFields? lines = some fields) :
    ∃ extended, parse? (withTable name above lines below) = some extended ∧
      ∀ key, extended.lookup key =
        if key = name then some (.table fields) else entries.lookup key := by
  obtain ⟨_, parsedAbove⟩ := Option.isSome_iff_exists.mp isAbove
  obtain ⟨upper, readAbove, _⟩ := parse?_eq_some_iff.mp parsedAbove
  obtain ⟨lower, readBelow, headed⟩ := exists_of_startsWithHeader starts
  obtain ⟨body, readLines, assigns, held⟩ := exists_of_bodyFields? isBody
  obtain ⟨statements, readText, document⟩ := parse?_eq_some_iff.mp whole
  rw [splits.statementsOf?_eq readAbove readBelow] at readText
  cases readText
  obtain ⟨extended, extendedDocument, gains⟩ :=
    documentOf?_insert document absent headed assigns held
  refine ⟨extended, parse?_eq_some_iff.mpr ⟨_, ?_, extendedDocument⟩, gains⟩
  have spelled : (withTable name above lines below).toList = above.toList ++ '\n' ::
      (('[' :: (name.toList ++ [']'])) ++ '\n' :: (lines.toList ++ '\n' :: below.toList)) := by
    simp [withTable]
  rw [spelled, dropByteOrderMark_lines]
  have readTable :=
    statementsOf?_lines bare.statementsOf?_header (statementsOf?_lines readLines readBelow)
  exact statementsOf?_lines readAbove readTable

end ModelLint.Toml
