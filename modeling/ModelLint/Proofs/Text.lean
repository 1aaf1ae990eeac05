import Mathlib.Data.List.Basic
import Mathlib.Data.List.Forall2
import Mathlib.Data.List.TakeWhile
import ModelLint.Text.Ascii
import ModelLint.Text.Blank
import ModelLint.Text.Search

namespace ModelLint.Text

/-! Texts cut at marks and trimmed of blanks.

Cutting and trimming are compared with what a text is made of: the pieces between its marks, and
a core with blanks on either side. -/

/-- A text has a word in it, in any letter case. -/
def Mentions (text word : String) : Prop :=
  ∃ before middle after, text.toList = before ++ middle ++ after ∧
    sameIgnoringCase (.ofList middle) word = true

variable {text core left right front behind : List Char} {mark : Char}

theorem length_of_sameIgnoringCase {left right : String} (same : sameIgnoringCase left right) :
    left.toList.length = right.toList.length := by
  have lengths := congrArg List.length (beq_iff_eq.mp same)
  simpa only [List.length_map] using lengths

theorem occursIn_iff {part text : List Char} : occursIn part text = true ↔ part <:+: text := by
  induction text with
  | nil => cases part <;> simp [occursIn]
  | cons c rest ih =>
      rw [occursIn, Bool.or_eq_true, List.isPrefixOf_iff_prefix, ih, List.infix_cons_iff]

theorem mentions_iff {text word : String} :
    Mentions text word ↔ occursIn (lower word).toList (lower text).toList = true := by
  rw [occursIn_iff]
  simp only [Mentions, sameIgnoringCase, lower, String.toList_ofList, beq_iff_eq]
  constructor
  · rintro ⟨before, middle, after, split, same⟩
    rw [split, ← same, List.map_append, List.map_append]
    exact List.infix_append _ _ _
  · rintro ⟨before, after, split⟩
    obtain ⟨front, back, split, lead, _⟩ := List.map_eq_append_iff.mp split.symm
    obtain ⟨before, middle, rfl, _, same⟩ := List.map_eq_append_iff.mp lead
    exact ⟨before, middle, back, split, same⟩

theorem pieces_eq_splitOn (mark : Char) (text : List Char) :
    pieces mark text = text.splitOn mark := by
  induction text with
  | nil => rfl
  | cons c rest ih =>
      rw [List.splitOn_eq_splitOnP, List.splitOnP_cons_eq_if_modifyHead,
        ← List.splitOn_eq_splitOnP, ← ih]
      by_cases here : c = mark
      · simp [pieces, here]
      · cases parts : pieces mark rest with
        | nil => exact absurd (ih.symm.trans parts) (List.splitOn_ne_nil mark rest)
        | cons piece others => simp [pieces, here, parts]

theorem notMem_of_mem_pieces {mark : Char} {text piece : List Char}
    (member : piece ∈ pieces mark text) : mark ∉ piece := by
  induction text generalizing piece with
  | nil =>
      rw [List.mem_singleton.mp member]
      exact List.not_mem_nil
  | cons c rest ih =>
      by_cases here : c = mark
      · rw [pieces, if_pos here, List.mem_cons] at member
        rcases member with rfl | later
        · exact List.not_mem_nil
        · exact ih later
      · cases parts : pieces mark rest with
        | nil =>
            rw [pieces_eq_splitOn] at parts
            exact absurd parts (List.splitOn_ne_nil mark rest)
        | cons first others =>
            simp only [pieces, here, if_false, parts, List.mem_cons] at member ih
            rcases member with rfl | later
            · simp [ih (.inl rfl), Ne.symm here]
            · exact ih (.inr later)

theorem pieces_append (absent : mark ∉ front) :
    pieces mark (front ++ mark :: behind) = front :: pieces mark behind := by
  simp only [pieces_eq_splitOn, List.splitOn_append_cons_self, List.splitOn_eq_singleton absent,
    List.singleton_append]

/-- The parts of a text between its marks, first to last. Nothing is a part as well. -/
inductive Parts (isMark : Char → Bool) : List Char → List (List Char) → Prop where
  | last {part : List Char} (free : ∀ c ∈ part, isMark c = false) : Parts isMark part [part]
  | cons {part text : List Char} {mark : Char} {parts : List (List Char)}
      (free : ∀ c ∈ part, isMark c = false) (here : isMark mark = true)
      (behind : Parts isMark text parts) : Parts isMark (part ++ mark :: text) (part :: parts)

theorem parts_splitOnP (isMark : Char → Bool) (text : List Char) :
    Parts isMark text (text.splitOnP isMark) := by
  induction text with
  | nil => exact .last (List.forall_mem_nil _)
  | cons c rest ih =>
      rw [List.splitOnP_cons_eq_if_modifyHead]
      split
      · rename_i here
        have nothing : ∀ c ∈ ([] : List Char), isMark c = false := List.forall_mem_nil _
        exact .cons nothing here ih
      · rename_i other
        rw [Bool.not_eq_true] at other
        generalize rest.splitOnP isMark = parts at ih
        cases ih with
        | last free => exact .last (List.forall_mem_cons.mpr ⟨other, free⟩)
        | cons free here behind =>
            rw [← List.cons_append]
            exact .cons (List.forall_mem_cons.mpr ⟨other, free⟩) here behind

theorem parts_iff {isMark : Char → Bool} {parts : List (List Char)} :
    Parts isMark text parts ↔ text.splitOnP isMark = parts := by
  constructor
  · intro given
    induction given with
    | last free => exact List.splitOnP_eq_singleton free
    | cons free here _ ih =>
        rw [List.splitOnP_append_cons _ _ here, ih, List.splitOnP_eq_singleton free]
        rfl
  · rintro rfl
    exact parts_splitOnP isMark text

theorem mem_intercalate {c : Char} {items : List (List Char)} (other : c ≠ mark) :
    c ∈ [mark].intercalate items ↔ ∃ item ∈ items, c ∈ item := by
  induction items with
  | nil => simp
  | cons first rest ih =>
      cases rest with
      | nil => simp
      | cons second rest =>
          rw [List.intercalate_cons_cons, List.mem_append, ih]
          simp [other]

theorem cut?_append (absent : mark ∉ front) :
    cut? mark (front ++ mark :: behind) = some (front, behind) := by
  induction front with
  | nil => simp [cut?]
  | cons c front ih =>
      rw [List.mem_cons, not_or] at absent
      simp [cut?, Ne.symm absent.1, ih absent.2]

theorem before?_eq_some_iff : before? behind text = some front ↔ text = front ++ behind := by
  rw [before?, Option.map_eq_some_iff]
  constructor
  · intro found
    obtain ⟨rest, cut, rfl⟩ := found
    rw [after?_eq_some_iff, List.reverse_eq_append_iff] at cut
    simpa using cut
  · intro same
    exact ⟨front.reverse, by rw [after?_eq_some_iff, same, List.reverse_append], by simp⟩

def Blanks (text : List Char) : Prop :=
  ∀ c ∈ text, isBlank c = true

/-- The text starts and ends with no blank. -/
structure Bare (text : List Char) : Prop where
  head : ∀ c, text.head? = some c → isBlank c = false
  last : ∀ c, text.getLast? = some c → isBlank c = false

instance : DecidablePred Bare := fun text =>
  decidable_of_iff (text.head?.all (!isBlank ·) ∧ text.getLast?.all (!isBlank ·))
    ⟨fun ⟨head, last⟩ => ⟨fun c first => by simpa [first] using head,
      fun c final => by simpa [final] using last⟩,
      fun bare => ⟨by simpa [Option.all_eq_true] using bare.head,
        by simpa [Option.all_eq_true] using bare.last⟩⟩

theorem Bare.join (bareLeft : Bare left) (bareRight : Bare right) (leftGiven : left ≠ [])
    (rightGiven : right ≠ []) (middle : List Char) : Bare (left ++ middle ++ right) := by
  refine ⟨fun c first => ?_, fun c last => ?_⟩
  · rw [List.append_assoc, List.head?_append_of_ne_nil _ leftGiven] at first
    exact bareLeft.head c first
  · rw [List.getLast?_append_of_ne_nil _ rightGiven] at last
    exact bareRight.last c last

/-- The core of a text, with nothing but blanks on either side of it. -/
def Trims (text core : List Char) : Prop :=
  Bare core ∧ ∃ left right, Blanks left ∧ Blanks right ∧ text = left ++ core ++ right

theorem Blanks.append (blankLeft : Blanks left) (blankRight : Blanks right) :
    Blanks (left ++ right) :=
  List.forall_mem_append.mpr ⟨blankLeft, blankRight⟩

theorem Blanks.reverse (blank : Blanks text) : Blanks text.reverse :=
  fun c member => blank c (List.mem_reverse.mp member)

theorem blanks_takeWhile (text : List Char) : Blanks (text.takeWhile isBlank) :=
  fun _ member => List.mem_takeWhile_imp member

theorem Blanks.dropWhile (blank : Blanks text) : text.dropWhile isBlank = [] :=
  List.dropWhile_eq_nil_iff.mpr blank

theorem dropWhile_append_solid (solid : isBlank mark = false) :
    (front ++ mark :: behind).dropWhile isBlank = front.dropWhile isBlank ++ mark :: behind := by
  rw [List.dropWhile_append, List.dropWhile_cons_of_neg (by simp [solid])]
  cases front.dropWhile isBlank <;> rfl

theorem trimRight_append_solid (solid : isBlank mark = false) :
    trimRight (front ++ mark :: behind) = front ++ mark :: trimRight behind := by
  have swapped : (front ++ mark :: behind).reverse =
      behind.reverse ++ mark :: front.reverse := by
    simp
  rw [trimRight, swapped, dropWhile_append_solid solid, trimRight]
  simp

/-- Only what stands outside of a character that is no blank is trimmed. -/
theorem trim_append_solid (solid : isBlank mark = false) :
    trim (front ++ mark :: behind) = front.dropWhile isBlank ++ mark :: trimRight behind := by
  rw [trim, dropWhile_append_solid solid, trimRight_append_solid solid]

theorem trimRight_append_blanks (blank : Blanks right) :
    trimRight (text ++ right) = trimRight text := by
  rw [trimRight, List.reverse_append, List.dropWhile_append_of_pos blank.reverse, trimRight]

theorem trimRight_of_last (last : ∀ c, text.getLast? = some c → isBlank c = false) :
    trimRight text = text := by
  rcases text.eq_nil_or_concat' with rfl | ⟨front, c, rfl⟩
  · rfl
  · rw [trimRight_append_solid (last c (by simp))]
    rfl

theorem exists_trimRight (text : List Char) :
    ∃ right, Blanks right ∧ text = trimRight text ++ right := by
  refine ⟨(text.reverse.takeWhile isBlank).reverse, (blanks_takeWhile _).reverse, ?_⟩
  rw [trimRight, ← List.reverse_append, List.takeWhile_append_dropWhile, List.reverse_reverse]

theorem head?_dropWhile (text : List Char) (c : Char)
    (first : (text.dropWhile isBlank).head? = some c) : isBlank c = false := by
  have solid := List.head?_dropWhile_not isBlank text
  rwa [first] at solid

theorem getLast?_trimRight (text : List Char) (c : Char)
    (last : (trimRight text).getLast? = some c) : isBlank c = false := by
  rw [trimRight, List.getLast?_reverse] at last
  exact head?_dropWhile _ c last

theorem bare_trim (text : List Char) : Bare (trim text) := by
  refine ⟨fun c first => ?_, getLast?_trimRight _⟩
  obtain ⟨right, _, split⟩ := exists_trimRight (text.dropWhile isBlank)
  rw [trim] at first
  refine head?_dropWhile text c ?_
  rw [split, List.head?_append, first]
  rfl

theorem trims_trim (text : List Char) : Trims text (trim text) := by
  obtain ⟨right, blankRight, split⟩ := exists_trimRight (text.dropWhile isBlank)
  refine ⟨bare_trim text, text.takeWhile isBlank, right, blanks_takeWhile text, blankRight, ?_⟩
  rw [trim, List.append_assoc, ← split, List.takeWhile_append_dropWhile]

theorem Trims.trim_eq (trims : Trims text core) : trim text = core := by
  obtain ⟨bare, left, right, blankLeft, blankRight, rfl⟩ := trims
  rw [trim, List.append_assoc, List.dropWhile_append_of_pos blankLeft]
  cases core with
  | nil => rw [List.nil_append, blankRight.dropWhile]; rfl
  | cons c rest =>
      rw [List.cons_append, List.dropWhile_cons_of_neg (by simp [bare.head c rfl]),
        ← List.cons_append, trimRight_append_blanks blankRight, trimRight_of_last bare.last]

theorem trim_eq_iff : trim text = core ↔ Trims text core :=
  ⟨fun same => same ▸ trims_trim text, Trims.trim_eq⟩

/-- The names in a text with marks between them and any blanks around them. Where there is no name
between two marks there is none in the list. -/
def NamesIn (mark : Char) (text : List Char) (names : List String) : Prop :=
  ∃ parts cores, Parts (· == mark) text parts ∧ List.Forall₂ Trims parts cores ∧
    names.map String.toList = cores.filter (· ≠ [])

theorem namesIn_iff {names : List String} :
    NamesIn mark text names ↔ ((pieces mark text).map trim).filterMap
      (fun core => if core.isEmpty then none else some (String.ofList core)) = names := by
  have trimmed (parts cores : List (List Char)) :
      List.Forall₂ Trims parts cores ↔ parts.map trim = cores := by
    rw [← List.forall₂_eq_eq_eq, List.forall₂_map_left_iff]
    simp only [trim_eq_iff]
  have named (cores : List (List Char)) : (cores.filterMap fun core =>
      if core.isEmpty then none else some (String.ofList core)).map String.toList =
        cores.filter (· ≠ []) := by
    induction cores with
    | nil => rfl
    | cons core rest ih => cases core <;> simpa using ih
  simp only [NamesIn, parts_iff, trimmed, ← List.splitOn_eq_splitOnP, ← pieces_eq_splitOn]
  constructor
  · rintro ⟨_, _, rfl, rfl, same⟩
    rw [← named] at same
    exact (List.map_injective_iff.mpr (fun _ _ => String.toList_injective) same).symm
  · rintro rfl
    exact ⟨_, _, rfl, rfl, named _⟩

theorem trim_eq_nil_iff : trim text = [] ↔ Blanks text := by
  rw [trim_eq_iff]
  constructor
  · rintro ⟨_, left, right, blankLeft, blankRight, rfl⟩
    rw [List.append_nil]
    exact blankLeft.append blankRight
  · intro blank
    exact ⟨by decide, text, [], blank, List.forall_mem_nil _, by simp⟩

theorem trim_padded (text : List Char) (blankLeft : Blanks left) (blankRight : Blanks right) :
    trim (left ++ text ++ right) = trim text := by
  obtain ⟨bare, before, after, blankBefore, blankAfter, split⟩ := trims_trim text
  refine Trims.trim_eq ⟨bare, left ++ before, after ++ right, blankLeft.append blankBefore,
    blankAfter.append blankRight, ?_⟩
  nth_rewrite 1 [split]
  simp

theorem trim_trimRight (text : List Char) : trim (trimRight text) = trim text := by
  obtain ⟨right, blank, split⟩ := exists_trimRight text
  have padded := trim_padded (trimRight text) (List.forall_mem_nil _) blank
  rw [List.nil_append, ← split] at padded
  exact padded.symm

theorem trim_dropWhile (text : List Char) : trim (text.dropWhile isBlank) = trim text := by
  have padded := trim_padded (text.dropWhile isBlank) (blanks_takeWhile text)
    (List.forall_mem_nil _)
  rw [List.append_nil, List.takeWhile_append_dropWhile] at padded
  exact padded.symm

theorem Bare.append_trimRight {lead : List Char} (bare : Bare lead) (given : lead ≠ []) :
    Bare (lead ++ trimRight text) := by
  constructor
  · intro c first
    rw [List.head?_append_of_ne_nil _ given] at first
    exact bare.head c first
  · intro c last
    rw [List.getLast?_append] at last
    cases ending : (trimRight text).getLast? with
    | none => exact bare.last c (by simpa [ending] using last)
    | some other =>
        obtain rfl : other = c := by simpa [ending] using last
        exact getLast?_trimRight text other ending

theorem trim_lead {lead : List Char} (bare : Bare lead) (given : lead ≠ []) (blank : Blanks left) :
    trim (left ++ lead ++ text) = lead ++ trimRight text := by
  obtain ⟨right, blankRight, split⟩ := exists_trimRight text
  refine Trims.trim_eq ⟨bare.append_trimRight given, left, right, blank, blankRight, ?_⟩
  nth_rewrite 1 [split]
  simp

/-- A trimmed text starts with what follows the blanks of the text. -/
theorem after?_trim {lead rest : List Char} (bare : Bare lead) (given : lead ≠ []) :
    after? lead (trim text) = some rest ↔
      ∃ left behind, Blanks left ∧ text = left ++ lead ++ behind ∧ rest = trimRight behind := by
  rw [after?_eq_some_iff]
  constructor
  · intro found
    obtain ⟨bareTrim, left, right, blankLeft, blankRight, split⟩ := trims_trim text
    rw [found] at bareTrim split
    refine ⟨left, rest ++ right, blankLeft, by simpa using split, ?_⟩
    rw [trimRight_append_blanks blankRight, trimRight_of_last]
    intro c last
    exact bareTrim.last c (by rw [List.getLast?_append, last]; rfl)
  · rintro ⟨left, behind, blank, rfl, rfl⟩
    exact trim_lead bare given blank

/-- A trimmed text is cut at a mark where the text is. -/
theorem cut?_trim {inner rest : List Char} (solid : isBlank mark = false) :
    cut? mark (trim text) = some (inner, rest) ↔
      ∃ front behind, text = front ++ mark :: behind ∧ mark ∉ front ∧
        inner = front.dropWhile isBlank ∧ rest = trimRight behind := by
  constructor
  · intro found
    have member : mark ∈ text := by
      obtain ⟨_, left, right, _, _, split⟩ := trims_trim text
      rw [split, (cut?_eq_some found).1]
      simp
    obtain ⟨front, behind, rfl, absent⟩ := List.eq_append_cons_of_mem member
    rw [trim_append_solid solid, cut?_append fun inside =>
      absent ((List.dropWhile_sublist _).mem inside), Option.some.injEq, Prod.mk.injEq] at found
    exact ⟨front, behind, rfl, absent, found.1.symm, found.2.symm⟩
  · rintro ⟨front, behind, rfl, absent, rfl, rfl⟩
    rw [trim_append_solid solid,
      cut?_append fun inside => absent ((List.dropWhile_sublist _).mem inside)]

end ModelLint.Text
