import ModelLint.Allowance
import ModelLint.Proofs.Text

namespace ModelLint.Allowance

open ModelLint.Text

/-! The comments that hold an allowance.

What a comment has to look like is said here by how it is put together, and not by how it is
taken apart. The comments that are read as an allowance are the ones put together in that way, and
an allowance that is written down, with blanks wherever there may be some, is read again. -/

/-- The marks of a comment that has no blanks around it, and the text inside. Three slashes are
never two slashes and a text that starts with a slash. -/
inductive CommentBody (text body : List Char) : Prop where
  | doc {rest : List Char} (spelled : text = "///".toList ++ rest) (trims : Trims rest body)
  | line {rest : List Char} (spelled : text = "//".toList ++ rest) (apart : rest.head? ≠ some '/')
      (trims : Trims rest body)
  | block {rest : List Char} (spelled : text = "/*".toList ++ rest ++ "*/".toList)
      (trims : Trims rest body)
  | unclosed {rest : List Char} (spelled : text = "/*".toList ++ rest)
      (ends : ¬ "*/".toList <:+ rest) (trims : Trims rest body)

/-- A comment with a list of items between parentheses, and what stands behind them. -/
structure Directive (comment : List Char) (items : List (List Char)) (behind : List Char) :
    Prop where
  spelled : ∃ text body gap, Trims comment text ∧ CommentBody text body ∧ Blanks gap ∧
    body = "cital-lint:".toList ++ gap ++ "allow(".toList ++ [','].intercalate items ++
      ')' :: behind
  nonempty : items ≠ []
  noComma : ∀ item ∈ items, ',' ∉ item
  noClose : ∀ item ∈ items, ')' ∉ item

/-- The key that an item spells, unless it is blank. -/
def Names (item : List Char) (key : String) : Prop :=
  ∃ core, Trims item core ∧ core ≠ [] ∧ key = lower (.ofList core)

/-- The text starts with a reason in quotes. -/
def Quotes (text : List Char) (reason : String) : Prop :=
  ∃ gap rest, Blanks gap ∧ '"' ∉ reason.toList ∧
    Trims text ("reason=".toList ++ gap ++ '"' :: reason.toList ++ '"' :: rest)

/-- The comment spells out this allowance. -/
def Grants (comment : List Char) (allowance : Allowance) : Prop :=
  ∃ items behind, Directive comment items behind ∧ (∃ item ∈ items, ¬ Blanks item) ∧
    (∀ key, key ∈ allowance.rules ↔ ∃ item ∈ items, Names item key) ∧
    ∀ reason, allowance.reason = some reason ↔ Quotes behind reason

variable {comment text body inner behind : List Char} {items : List (List Char)}

theorem commentBody_of_eq_some (found : commentBody? comment = some body) :
    CommentBody (trim comment) body := by
  rw [commentBody?] at found
  generalize trim comment = text at found ⊢
  cases three : after? "///".toList text with
  | some rest =>
      simp only [three, Option.some.injEq, trim_eq_iff] at found
      exact .doc (after?_eq_some_iff.mp three) found
  | none =>
      cases two : after? "//".toList text with
      | some rest =>
          simp only [three, two, Option.some.injEq, trim_eq_iff] at found
          have spelled := after?_eq_some_iff.mp two
          refine .line spelled (fun slash => ?_) found
          obtain ⟨more, rfl⟩ := List.head?_eq_some_iff.mp slash
          rw [after?_eq_some_iff.mpr (show text = "///".toList ++ more from spelled)] at three
          contradiction
      | none =>
          simp only [three, two, Option.map_eq_some_iff] at found
          obtain ⟨rest, opened, found⟩ := found
          have spelled := after?_eq_some_iff.mp opened
          cases closed : before? "*/".toList rest with
          | some inside =>
              simp only [closed, Option.getD_some, trim_eq_iff] at found
              rw [before?_eq_some_iff.mp closed, ← List.append_assoc] at spelled
              exact .block spelled found
          | none =>
              simp only [closed, Option.getD_none, trim_eq_iff] at found
              refine .unclosed spelled (fun ends => ?_) found
              obtain ⟨inside, rfl⟩ := ends
              rw [before?_eq_some_iff.mpr rfl] at closed
              contradiction

theorem CommentBody.commentBody?_eq (inside : CommentBody text body) (around : Trims comment text) :
    commentBody? comment = some body := by
  rw [commentBody?, around.trim_eq]
  cases inside with
  | @doc rest spelled trims =>
      subst spelled
      simp only [after?_eq_some_iff.mpr rfl, trims.trim_eq]
  | @line rest spelled apart trims =>
      subst spelled
      have noThree : after? "///".toList ("//".toList ++ rest) = none := by
        cases rest with
        | nil => rfl
        | cons c more =>
            have other : '/' ≠ c := fun same => apart (by rw [← same]; rfl)
            exact if_neg other
      simp only [noThree, after?_eq_some_iff.mpr rfl, trims.trim_eq]
  | @block rest spelled trims =>
      subst spelled
      have noThree : after? "///".toList ("/*".toList ++ rest ++ "*/".toList) = none := rfl
      have noTwo : after? "//".toList ("/*".toList ++ rest ++ "*/".toList) = none := rfl
      have opened : after? "/*".toList ("/*".toList ++ rest ++ "*/".toList) =
          some (rest ++ "*/".toList) := rfl
      simp only [noThree, noTwo, opened, Option.map_some, before?_eq_some_iff.mpr rfl,
        Option.getD_some, trims.trim_eq]
  | @unclosed rest spelled ends trims =>
      subst spelled
      have noThree : after? "///".toList ("/*".toList ++ rest) = none := rfl
      have noTwo : after? "//".toList ("/*".toList ++ rest) = none := rfl
      have noClosing : before? "*/".toList rest = none := by
        cases closed : before? "*/".toList rest with
        | none => rfl
        | some inside => exact absurd ⟨inside, (before?_eq_some_iff.mp closed).symm⟩ ends
      simp only [noThree, noTwo, after?_eq_some_iff.mpr rfl, Option.map_some, noClosing,
        Option.getD_none, trims.trim_eq]

theorem lower_ofList_eq_empty : lower (.ofList text) = "" ↔ text = [] := by
  rw [lower, String.toList_ofList, ← String.toList_inj, String.toList_ofList]
  exact List.map_eq_nil_iff

theorem mem_keys {key : String} :
    key ∈ keys inner ↔ ∃ item ∈ pieces ',' inner, Names item key := by
  rw [keys, List.mem_filterMap]
  refine exists_congr fun item => and_congr_right fun _ => ?_
  simp only [Names, ← trim_eq_iff, exists_eq_left', lower_ofList_eq_empty]
  by_cases blank : trim item = []
  · simp [blank]
  · simp [blank, eq_comm]

theorem keys_dropWhile (inner : List Char) : keys (inner.dropWhile isBlank) = keys inner := by
  by_cases member : ',' ∈ inner
  · obtain ⟨front, behind, rfl, absent⟩ := List.eq_append_cons_of_mem member
    have still : ',' ∉ front.dropWhile isBlank :=
      fun inside => absent ((List.dropWhile_sublist _).mem inside)
    rw [dropWhile_append_solid (by decide), keys, keys, pieces_append still, pieces_append absent]
    simp only [List.filterMap_cons, trim_dropWhile]
  · have still : ',' ∉ inner.dropWhile isBlank :=
      fun inside => member ((List.dropWhile_sublist _).mem inside)
    simp only [keys, pieces_eq_splitOn, List.splitOn_eq_singleton still,
      List.splitOn_eq_singleton member, List.filterMap_cons, trim_dropWhile]

theorem reason?_eq_some_iff {reason : String} :
    reason? text = some reason ↔ Quotes text reason := by
  have quote : Bare ['"'] := by decide
  constructor
  · intro found
    simp only [reason?, Option.bind_eq_bind, Option.bind_eq_some_iff, after?_eq_some_iff,
      trim_eq_iff] at found
    obtain ⟨quoted, trims, opened, ⟨_, gap, right, blank, _, rfl⟩, ⟨inner, rest⟩, cut, same⟩ :=
      found
    obtain ⟨rfl, absent⟩ := cut?_eq_some cut
    obtain rfl : String.ofList inner = reason := by simpa using same
    rw [Quotes, String.toList_ofList]
    exact ⟨gap, rest ++ right, blank, absent, by simpa using trims⟩
  · rintro ⟨gap, rest, blank, absent, trims⟩
    have opened : after? "reason=".toList (trim text) =
        some (gap ++ ['"'] ++ (reason.toList ++ '"' :: rest)) := by
      rw [after?_eq_some_iff, trims.trim_eq]
      simp
    simp only [reason?, Option.bind_eq_bind, opened, Option.bind_some]
    rw [(after?_trim quote (by simp)).mpr ⟨gap, _, blank, rfl, rfl⟩, Option.bind_some,
      trimRight_append_solid (by decide), cut?_append absent, Option.bind_some,
      String.ofList_toList]
    rfl

/-- What is read from a comment that is put together in the right way. -/
theorem Directive.parse?_eq (directive : Directive comment items behind) :
    parse? (.ofList comment) =
      if (keys ([','].intercalate items)).isEmpty then none
      else some {
        rules := (keys ([','].intercalate items)).eraseDups
        reason := reason? behind } := by
  obtain ⟨⟨text, body, gap, trims, inside, blank, spelled⟩, _, _, noClose⟩ := directive
  have marked : commentBody? comment = some body := inside.commentBody?_eq trims
  have named : after? "cital-lint:".toList body =
      some (gap ++ "allow(".toList ++ ([','].intercalate items ++ ')' :: behind)) := by
    rw [after?_eq_some_iff, spelled]
    simp
  have allowed : after? "allow(".toList
        (trim (gap ++ "allow(".toList ++ ([','].intercalate items ++ ')' :: behind))) =
      some (trimRight ([','].intercalate items ++ ')' :: behind)) :=
    (after?_trim (by decide) (by decide)).mpr ⟨gap, _, blank, rfl, rfl⟩
  have absent : ')' ∉ [','].intercalate items := by
    rw [mem_intercalate (by decide)]
    rintro ⟨item, member, closes⟩
    exact noClose item member closes
  have cut : cut? ')' (trim ([','].intercalate items ++ ')' :: behind)) =
      some (([','].intercalate items).dropWhile isBlank, trimRight behind) :=
    (cut?_trim (by decide)).mpr ⟨_, behind, rfl, absent, rfl, rfl⟩
  have sameReason : reason? (trimRight behind) = reason? behind := by
    simp only [reason?, trim_trimRight]
  simp only [parse?, String.toList_ofList, Option.bind_eq_bind, marked, Option.bind_some, named,
    allowed, trim_trimRight, cut, keys_dropWhile, sameReason]

theorem exists_directive {found : Allowance} (parsed : parse? (.ofList comment) = some found) :
    ∃ items behind, Directive comment items behind := by
  simp only [parse?, String.toList_ofList, Option.bind_eq_bind, Option.bind_eq_some_iff] at parsed
  obtain ⟨body, marked, directive, named, allowed, opened, ⟨inner, rest⟩, cut, _⟩ := parsed
  have inside := commentBody_of_eq_some marked
  obtain ⟨gap, listed, blank, rfl, rfl⟩ := (after?_trim (by decide) (by decide)).mp opened
  rw [trim_trimRight] at cut
  obtain ⟨front, behind, rfl, absent, _⟩ := (cut?_trim (by decide)).mp cut
  have joined : [','].intercalate (pieces ',' front) = front := by
    rw [pieces_eq_splitOn, List.intercalate_splitOn]
  refine ⟨pieces ',' front, behind, ⟨_, body, gap, trims_trim comment, inside, blank, ?_⟩,
    ?_, ?_, ?_⟩
  · rw [after?_eq_some_iff.mp named, joined]
    simp
  · rw [pieces_eq_splitOn]
    exact List.splitOn_ne_nil _ _
  · exact fun item member => notMem_of_mem_pieces member
  · intro item member closes
    rw [← joined, mem_intercalate (by decide)] at absent
    exact absent ⟨item, member, closes⟩

/-- The same rules, in any order, for the same reason. -/
def Same (left right : Allowance) : Prop :=
  (∀ key, key ∈ left.rules ↔ key ∈ right.rules) ∧ left.reason = right.reason

theorem names_iff {item : List Char} {key : String} :
    Names item key ↔ trim item ≠ [] ∧ key = lower (.ofList (trim item)) := by
  simp only [Names, ← trim_eq_iff, exists_eq_left']

namespace Directive

theorem mem_keys_iff (directive : Directive comment items behind) {key : String} :
    key ∈ keys ([','].intercalate items) ↔ ∃ item ∈ items, Names item key := by
  rw [mem_keys, pieces_eq_splitOn,
    List.splitOn_intercalate ',' directive.noComma directive.nonempty]

theorem exists_mem_keys_iff (directive : Directive comment items behind) :
    (keys ([','].intercalate items)).isEmpty = false ↔ ∃ item ∈ items, ¬ Blanks item := by
  rw [List.isEmpty_eq_false_iff_exists_mem]
  constructor
  · rintro ⟨key, member⟩
    obtain ⟨item, inside, names⟩ := directive.mem_keys_iff.mp member
    exact ⟨item, inside, fun blank => (names_iff.mp names).1 (trim_eq_nil_iff.mpr blank)⟩
  · rintro ⟨item, inside, notBlank⟩
    exact ⟨_, directive.mem_keys_iff.mpr ⟨item, inside,
      names_iff.mpr ⟨fun empty => notBlank (trim_eq_nil_iff.mp empty), rfl⟩⟩⟩

theorem parse?_exists (directive : Directive comment items behind)
    (given : ∃ item ∈ items, ¬ Blanks item) :
    ∃ found, parse? (.ofList comment) = some found ∧
      (∀ key, key ∈ found.rules ↔ ∃ item ∈ items, Names item key) ∧
      ∀ reason, found.reason = some reason ↔ Quotes behind reason := by
  refine ⟨_, by rw [directive.parse?_eq, directive.exists_mem_keys_iff.mpr given]; rfl,
    fun key => ?_, fun reason => reason?_eq_some_iff⟩
  rw [List.mem_eraseDups, directive.mem_keys_iff]

end Directive

theorem parse?_same_iff {comment : String} {allowance : Allowance} :
    (∃ found, parse? comment = some found ∧ found.Same allowance) ↔
      Grants comment.toList allowance := by
  constructor
  · rintro ⟨found, parsed, sameRules, sameReason⟩
    have parsed : parse? (.ofList comment.toList) = some found := by
      rwa [String.ofList_toList]
    obtain ⟨items, behind, directive⟩ := exists_directive parsed
    have given : ∃ item ∈ items, ¬ Blanks item := by
      rw [← directive.exists_mem_keys_iff, Bool.eq_false_iff]
      intro empty
      rw [directive.parse?_eq, if_pos empty] at parsed
      contradiction
    obtain ⟨again, parsedAgain, rules, reason⟩ := directive.parse?_exists given
    obtain rfl : found = again := Option.some.inj (parsed.symm.trans parsedAgain)
    refine ⟨items, behind, directive, given, fun key => ?_, fun reasonText => ?_⟩
    · rw [← sameRules, rules]
    · rw [← sameReason, reason]
  · rintro ⟨items, behind, directive, given, rules, reason⟩
    obtain ⟨found, parsed, foundRules, foundReason⟩ := directive.parse?_exists given
    rw [String.ofList_toList] at parsed
    refine ⟨found, parsed, fun key => by rw [foundRules, rules], ?_⟩
    exact Option.ext fun text => (foundReason text).trans (reason text).symm

inductive CommentForm where
  | doc
  | line
  | block
deriving DecidableEq, Repr

namespace CommentForm

def opening : CommentForm → List Char
  | doc => "///".toList
  | line => "//".toList
  | block => "/*".toList

def closing : CommentForm → List Char
  | doc | line => []
  | block => "*/".toList

end CommentForm

abbrev Padding := { text : List Char // Blanks text }

/-- A key with the blanks around it. -/
structure Entry where
  before : Padding
  key : String
  after : Padding
  bare : Bare key.toList
  noComma : ',' ∉ key.toList
  noClose : ')' ∉ key.toList

def Entry.spelled (entry : Entry) : List Char :=
  entry.before ++ entry.key.toList ++ entry.after

theorem Entry.mem_spelled {entry : Entry} {c : Char} (solid : isBlank c = false) :
    c ∈ entry.spelled ↔ c ∈ entry.key.toList := by
  have outside (padding : Padding) : c ∉ padding.1 := fun inside =>
    absurd (padding.2 c inside) (by simp [solid])
  simp [spelled, outside]

theorem Entry.names_spelled {entry : Entry} {key : String} :
    Names entry.spelled key ↔ entry.key ≠ "" ∧ key = lower entry.key := by
  have trims : Trims entry.spelled entry.key.toList :=
    ⟨entry.bare, entry.before, entry.after, entry.before.2, entry.after.2, rfl⟩
  rw [names_iff, trims.trim_eq, String.ofList_toList, Ne, String.toList_eq_nil_iff]

/-- A reason with the blanks in front of it and in front of its quotes. -/
structure QuotedReason where
  before : Padding
  gap : Padding
  reason : String
  noQuote : '"' ∉ reason.toList

def QuotedReason.quoted (reason : QuotedReason) : List Char :=
  "reason=".toList ++ reason.gap ++ '"' :: reason.reason.toList ++ ['"']

theorem QuotedReason.bare_quoted (reason : QuotedReason) : Bare reason.quoted := by
  unfold quoted
  rw [List.append_assoc "reason=".toList]
  exact Bare.join (by decide) (by decide) (by decide) (by decide) _

/-- An allowance with all that its spelling leaves open. -/
structure Draft where
  form : CommentForm
  entries : List Entry
  nonempty : entries ≠ []
  reason : Option QuotedReason
  before : Padding
  afterOpening : Padding
  afterColon : Padding
  beforeClosing : Padding
  after : Padding

namespace Draft

variable {draft : Draft}

/-- What stands behind the parentheses. -/
def tail (draft : Draft) : List Char :=
  draft.reason.elim [] fun reason => reason.before ++ reason.quoted

def content (draft : Draft) : List Char :=
  "cital-lint:".toList ++ draft.afterColon ++ "allow(".toList ++
    [','].intercalate (draft.entries.map Entry.spelled) ++ ')' :: draft.tail

def spelled (draft : Draft) : List Char :=
  draft.before ++ draft.form.opening ++ draft.afterOpening ++ draft.content ++
    draft.beforeClosing ++ draft.form.closing ++ draft.after

theorem content_ne_nil (draft : Draft) : draft.content ≠ [] :=
  List.append_ne_nil_of_right_ne_nil _ (List.cons_ne_nil _ _)

theorem tail_of_none (given : draft.reason = none) : draft.tail = [] := by
  rw [tail, given, Option.elim_none]

theorem tail_of_some {reason : QuotedReason} (given : draft.reason = some reason) :
    draft.tail = reason.before ++ reason.quoted := by
  rw [tail, given, Option.elim_some]

theorem exists_content_eq (draft : Draft) :
    ∃ middle mark, draft.content = "cital-lint:".toList ++ middle ++ [mark] ∧ Bare [mark] := by
  -- The last mark is the parenthesis, or the quote behind the reason.
  cases reason : draft.reason with
  | none =>
      refine ⟨draft.afterColon ++ "allow(".toList ++
        [','].intercalate (draft.entries.map Entry.spelled), ')', ?_, by decide⟩
      unfold content
      rw [tail_of_none reason]
      simp only [List.append_assoc]
  | some quoted =>
      obtain ⟨front, closes⟩ : ∃ front, quoted.quoted = front ++ ['"'] := ⟨_, rfl⟩
      refine ⟨draft.afterColon ++ "allow(".toList ++
        [','].intercalate (draft.entries.map Entry.spelled) ++ ')' :: (quoted.before ++ front),
        '"', ?_, by decide⟩
      unfold content
      rw [tail_of_some reason, closes]
      simp only [List.append_assoc, List.cons_append]

theorem bare_content (draft : Draft) : Bare draft.content := by
  obtain ⟨middle, mark, split, closes⟩ := draft.exists_content_eq
  rw [split]
  exact Bare.join (by decide) closes (by decide) (List.cons_ne_nil _ _) middle

theorem head?_opened (draft : Draft) : (draft.afterOpening ++ draft.content).head? ≠ some '/' := by
  intro slash
  cases opened : draft.afterOpening.1 with
  | nil =>
      obtain ⟨middle, mark, split, _⟩ := draft.exists_content_eq
      rw [opened, List.nil_append, split, List.append_assoc,
        List.head?_append_of_ne_nil _ (by decide)] at slash
      exact absurd slash (by decide)
  | cons c rest =>
      have blank : isBlank c = true := draft.afterOpening.2 c (by simp [opened])
      rw [opened, List.cons_append, List.head?_cons, Option.some.injEq] at slash
      subst slash
      exact absurd blank (by decide)

theorem commentBody (draft : Draft) :
    ∃ text, Trims draft.spelled text ∧ CommentBody text draft.content := by
  have bare := draft.bare_content
  have given := draft.content_ne_nil
  have inside : Trims (draft.afterOpening ++ draft.content) draft.content :=
    ⟨bare, draft.afterOpening, [], draft.afterOpening.2, List.forall_mem_nil _, by simp⟩
  have behind := draft.beforeClosing.2.append draft.after.2
  cases form : draft.form with
  | doc =>
      have whole : Bare ("///".toList ++ draft.afterOpening ++ draft.content) :=
        Bare.join (by decide) bare (by decide) given _
      refine ⟨_, ⟨whole, draft.before, _, draft.before.2, behind, ?_⟩,
        .doc (List.append_assoc _ _ _) inside⟩
      simp only [spelled, form, CommentForm.opening, CommentForm.closing, List.append_assoc,
        List.nil_append]
  | line =>
      have whole : Bare ("//".toList ++ draft.afterOpening ++ draft.content) :=
        Bare.join (by decide) bare (by decide) given _
      refine ⟨_, ⟨whole, draft.before, _, draft.before.2, behind, ?_⟩,
        .line (List.append_assoc _ _ _) draft.head?_opened inside⟩
      simp only [spelled, form, CommentForm.opening, CommentForm.closing, List.append_assoc,
        List.nil_append]
  | block =>
      have whole : Bare ("/*".toList ++
          (draft.afterOpening ++ draft.content ++ draft.beforeClosing) ++ "*/".toList) :=
        Bare.join (by decide) (by decide) (by decide) (by decide) _
      refine ⟨_, ⟨whole, draft.before, draft.after, draft.before.2, draft.after.2, ?_⟩,
        .block rfl ⟨bare, draft.afterOpening, draft.beforeClosing, draft.afterOpening.2,
          draft.beforeClosing.2, rfl⟩⟩
      simp only [spelled, form, CommentForm.opening, CommentForm.closing, List.append_assoc]

theorem directive (draft : Draft) :
    Directive draft.spelled (draft.entries.map Entry.spelled) draft.tail := by
  obtain ⟨text, trims, inside⟩ := draft.commentBody
  refine ⟨⟨text, draft.content, draft.afterColon, trims, inside, draft.afterColon.2, rfl⟩,
    ?_, ?_, ?_⟩
  · simpa using draft.nonempty
  · rw [List.forall_mem_map]
    exact fun entry _ => mt (Entry.mem_spelled (by decide)).mp entry.noComma
  · rw [List.forall_mem_map]
    exact fun entry _ => mt (Entry.mem_spelled (by decide)).mp entry.noClose

theorem reason?_tail (draft : Draft) :
    reason? draft.tail = draft.reason.map QuotedReason.reason := by
  cases given : draft.reason with
  | none =>
      rw [tail_of_none given]
      rfl
  | some quoted =>
      rw [tail_of_some given, Option.map_some, reason?_eq_some_iff]
      exact ⟨quoted.gap, [], quoted.gap.2, quoted.noQuote, quoted.bare_quoted, quoted.before, [],
        quoted.before.2, List.forall_mem_nil _, (List.append_nil _).symm⟩

theorem parse?_spelled (draft : Draft) (given : ∃ entry ∈ draft.entries, entry.key ≠ "") :
    ∃ found, parse? (.ofList draft.spelled) = some found ∧
      (∀ key, key ∈ found.rules ↔ ∃ entry ∈ draft.entries, entry.key ≠ "" ∧ key = lower entry.key) ∧
      found.reason = draft.reason.map QuotedReason.reason := by
  obtain ⟨entry, member, named⟩ := given
  have notBlank : ¬ Blanks entry.spelled := fun blank =>
    (names_iff.mp (Entry.names_spelled.mpr ⟨named, rfl⟩)).1 (trim_eq_nil_iff.mpr blank)
  obtain ⟨found, parsed, rules, reason⟩ :=
    draft.directive.parse?_exists ⟨_, List.mem_map_of_mem member, notBlank⟩
  refine ⟨found, parsed, fun key => ?_, Option.ext fun text => ?_⟩
  · simp only [rules, List.mem_map, exists_exists_and_eq_and, Entry.names_spelled]
  · rw [reason, ← reason?_eq_some_iff, draft.reason?_tail]

end Draft

/-- The comments that are put together as an allowance are the ones that are read as one, and what
is read is what they spell. So an allowance that is written down in any of the three forms, with
any blanks, is read again with its keys in lower case. -/
theorem parse?_reads_grammar :
    (∀ (comment : String) (allowance : Allowance),
      (∃ found, parse? comment = some found ∧ found.Same allowance) ↔
        Grants comment.toList allowance) ∧
    ∀ draft : Draft, (∃ entry ∈ draft.entries, entry.key ≠ "") →
      ∃ found, parse? (.ofList draft.spelled) = some found ∧
        (∀ key, key ∈ found.rules ↔
          ∃ entry ∈ draft.entries, entry.key ≠ "" ∧ key = lower entry.key) ∧
        found.reason = draft.reason.map QuotedReason.reason :=
  ⟨fun _ _ => parse?_same_iff, Draft.parse?_spelled⟩

/-- Two keys, one of them in capitals, with an item left empty between them. -/
def spacedDraft : Draft where
  form := .block
  entries := [⟨oneBlank, "CIG0011", oneBlank, by decide, by decide, by decide⟩,
    ⟨oneBlank, "", noBlank, by decide, by decide, by decide⟩,
    ⟨noBlank, "all", oneBlank, by decide, by decide, by decide⟩]
  nonempty := List.cons_ne_nil _ _
  reason := some ⟨oneBlank, oneBlank, "once (or twice), */", by decide⟩
  before := oneBlank
  afterOpening := noBlank
  afterColon := oneBlank
  beforeClosing := oneBlank
  after := noBlank
where
  noBlank : Padding := ⟨[], List.forall_mem_nil _⟩
  oneBlank : Padding := ⟨[' '], List.forall_mem_singleton.mpr (by decide)⟩

theorem parse?_reads_grammar_spaced :
    ∃ found, parse?
        " /*cital-lint: allow( CIG0011 , ,all ) reason= \"once (or twice), */\" */" = some found ∧
      (∀ key, key ∈ found.rules ↔ key = "cig0011" ∨ key = "all") ∧
      found.reason = some "once (or twice), */" := by
  obtain ⟨found, parsed, rules, reason⟩ :=
    parse?_reads_grammar.2 spacedDraft ⟨_, List.mem_cons_self, by decide⟩
  refine ⟨found, parsed, fun key => ?_, reason⟩
  have first : lower "CIG0011" = "cig0011" := by decide
  have last : lower "all" = "all" := by decide
  simp [rules, spacedDraft, first, last]

end ModelLint.Allowance
