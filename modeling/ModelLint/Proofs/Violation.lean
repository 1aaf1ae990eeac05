import Mathlib.Data.String.Basic
import ModelLint.Violation

namespace ModelLint

/-! The order of violations.

Violations come in the order of their files, the files in the order of their paths taken
component by component, and within a file in that of line, column, code and message. Sorting
brings them into this order and moves no violation past another that ties with it. -/

open Std (TransCmp)

theorem isLE_or_isLE {α : Type} (cmp : α → α → Ordering) [Std.OrientedCmp cmp] (left right : α) :
    ((cmp left right).isLE || (cmp right left).isLE) = true := by
  have swapped : cmp right left = (cmp left right).swap := Std.OrientedCmp.eq_swap
  rw [swapped]
  cases cmp left right <;> rfl

section

variable {α : Type} {le : α → α → Bool} (trans : ∀ first second third : α,
    le first second = true → le second third = true → le first third = true)
  (total : ∀ left right : α, (le left right || le right left) = true)

include trans total

/-- Sorting puts the first value in front of all that it comes before or ties with. -/
theorem mergeSort_cons_eq (value : α) (rest : List α) :
    (value :: rest).mergeSort le =
      (rest.mergeSort le).filter (!le value ·) ++
        value :: (rest.mergeSort le).filter (le value) := by
  obtain ⟨before, after, whole, split, earlier⟩ := List.mergeSort_cons trans total value rest
  have sorted := List.pairwise_mergeSort trans total (value :: rest)
  rw [whole, List.pairwise_append] at sorted
  have later : ∀ other ∈ after, le value other = true := fun other member =>
    List.rel_of_pairwise_cons sorted.2.1 member
  rw [whole, split, List.filter_append, List.filter_append, List.filter_eq_self.mpr earlier,
    List.filter_eq_self.mpr later, List.filter_eq_nil_iff.mpr (by simpa using later),
    List.filter_eq_nil_iff.mpr (by simpa using earlier), List.append_nil, List.nil_append]

/-- Dropping values commutes with sorting. -/
theorem filter_mergeSort (keeps : α → Bool) (values : List α) :
    (values.mergeSort le).filter keeps = (values.filter keeps).mergeSort le := by
  induction values with
  | nil => simp
  | cons value rest ih =>
      cases kept : keeps value with
      | false =>
          obtain ⟨before, after, whole, split, _⟩ := List.mergeSort_cons trans total value rest
          rw [List.filter_cons_of_neg (by simp [kept]), ← ih, whole, split]
          simp [kept]
      | true =>
          rw [List.filter_cons_of_pos kept, mergeSort_cons_eq trans total,
            mergeSort_cons_eq trans total, ← ih]
          simp [kept, List.filter_filter, Bool.and_comm]

end

namespace Path

/-- One component comes before another: by its rank, or as a name before a name. -/
def Component.Precedes : Component → Component → Prop
  | .normal left, .normal right => left < right
  | left, right => left.rank < right.rank

variable {left right : Component}

theorem Component.compare_eq_lt : Component.compare left right = .lt ↔ left.Precedes right := by
  cases left <;> cases right <;>
    simp [Component.compare, Component.Precedes, rank, compare_lt_iff_lt]

theorem Component.compare_eq_eq : Component.compare left right = .eq ↔ left = right := by
  cases left <;> cases right <;> simp [Component.compare, rank]

/-- The name of a component, which only matters among names. -/
def Component.name : Component → String
  | .normal name => name
  | _ => ""

theorem Component.compare_eq_compareLex :
    Component.compare = compareLex (compareOn rank) (compareOn name) := by
  funext left right
  cases left <;> cases right <;>
    simp [Component.compare, compareLex, compareOn, rank, name, Nat.compare_eq_ite_lt]

instance : TransCmp Component.compare := by
  rw [Component.compare_eq_compareLex]
  infer_instance

theorem compareComponents_eq_compareLex :
    compareComponents = List.compareLex Component.compare := by
  funext lefts rights
  induction lefts generalizing rights with
  | nil => cases rights <;> rfl
  | cons left lefts ih =>
      cases rights with
      | nil => rfl
      | cons right rights =>
          simp only [compareComponents, List.compareLex_cons_cons, ih]
          rfl

instance : TransCmp compareComponents := by
  rw [compareComponents_eq_compareLex]
  infer_instance

theorem compareComponents_eq_lt {lefts rights : List Component} :
    compareComponents lefts rights = .lt ↔ List.Lex Component.Precedes lefts rights := by
  induction lefts generalizing rights with
  | nil => cases rights <;> simp [compareComponents]
  | cons left lefts ih =>
      cases rights with
      | nil => simp [compareComponents]
      | cons right rights =>
          change ((Component.compare left right).then (compareComponents lefts rights)) = .lt ↔ _
          rw [Ordering.then_eq_lt, Component.compare_eq_lt, Component.compare_eq_eq, ih,
            List.cons_lex_cons_iff]

theorem compareComponents_eq_eq {lefts rights : List Component} :
    compareComponents lefts rights = .eq ↔ lefts = rights := by
  induction lefts generalizing rights with
  | nil => cases rights <;> simp [compareComponents]
  | cons left lefts ih =>
      cases rights with
      | nil => simp [compareComponents]
      | cons right rights =>
          change ((Component.compare left right).then (compareComponents lefts rights)) = .eq ↔ _
          rw [Ordering.then_eq_eq, Component.compare_eq_eq, ih, List.cons.injEq]

instance : TransCmp Path.compare where
  eq_swap {left right} :=
    (Std.OrientedCmp.eq_swap : compareComponents (components left) (components right) = _)
  isLE_trans {first _ third} before after :=
    (TransCmp.isLE_trans before after :
      (compareComponents (components first) (components third)).isLE = true)

end Path

namespace Violation

variable {left right : Violation}

/-- One violation comes before another: by the first of path, line, column, code and message
in which they differ. -/
def Precedes (left right : Violation) : Prop :=
  List.Lex Path.Component.Precedes (Path.components left.location.file)
      (Path.components right.location.file) ∨
  Path.components left.location.file = Path.components right.location.file ∧
  (left.location.line < right.location.line ∨ left.location.line = right.location.line ∧
  (left.location.column < right.location.column ∨ left.location.column = right.location.column ∧
  (left.code < right.code ∨ left.code = right.code ∧ left.message < right.message)))

/-- Two violations that agree on path, line, column, code and message. -/
def Ties (left right : Violation) : Prop :=
  Path.components left.location.file = Path.components right.location.file ∧
  left.location.line = right.location.line ∧ left.location.column = right.location.column ∧
  left.code = right.code ∧ left.message = right.message

instance : DecidableRel Ties := fun _ _ => instDecidableAnd

theorem compare_eq_lt : compare left right = .lt ↔ left.Precedes right := by
  simp only [compare, Path.compare, Precedes, Ordering.then_eq_lt, Path.compareComponents_eq_lt,
    Path.compareComponents_eq_eq, compare_lt_iff_lt, Std.compare_eq_iff_eq]

theorem compare_eq_eq : compare left right = .eq ↔ left.Ties right := by
  simp only [compare, Path.compare, Ties, Ordering.then_eq_eq, Path.compareComponents_eq_eq,
    Std.compare_eq_iff_eq]

instance : TransCmp fun left right : Violation =>
    Path.compare left.location.file right.location.file where
  eq_swap {left right} :=
    (Std.OrientedCmp.eq_swap : Path.compare left.location.file right.location.file = _)
  isLE_trans {first _ third} before after :=
    (TransCmp.isLE_trans before after :
      (Path.compare first.location.file third.location.file).isLE = true)

instance : TransCmp compare := by
  have keys : compare = compareLex
      (fun left right => Path.compare left.location.file right.location.file)
      (compareLex (compareOn (·.location.line)) (compareLex (compareOn (·.location.column))
        (compareLex (compareOn (·.code)) (compareOn (·.message))))) := rfl
  rw [keys]
  infer_instance

theorem isLE_compare :
    (compare left right).isLE = true ↔ left.Precedes right ∨ left.Ties right := by
  rw [← compare_eq_lt, ← compare_eq_eq]
  cases compare left right <;> decide

theorem isLE_trans (first second third : Violation) (before : (compare first second).isLE = true)
    (after : (compare second third).isLE = true) : (compare first third).isLE = true :=
  TransCmp.isLE_trans before after

theorem isLE_total (left right : Violation) :
    ((compare left right).isLE || (compare right left).isLE) = true :=
  isLE_or_isLE compare left right

theorem sort_perm (violations : List Violation) : (sort violations).Perm violations :=
  List.mergeSort_perm _ _

theorem sort_pairwise (violations : List Violation) :
    (sort violations).Pairwise fun earlier later =>
      earlier.Precedes later ∨ earlier.Ties later := by
  have sorted := List.pairwise_mergeSort isLE_trans isLE_total violations
  exact sorted.imp fun inOrder => isLE_compare.mp inOrder

theorem Ties.trans_symm {other : Violation} (first : left.Ties other) (second : right.Ties other) :
    left.Ties right := by
  obtain ⟨path, line, column, code, message⟩ := first
  obtain ⟨path', line', column', code', message'⟩ := second
  exact ⟨path.trans path'.symm, line.trans line'.symm, column.trans column'.symm,
    code.trans code'.symm, message.trans message'.symm⟩

/-- Violations that tie keep their order. -/
theorem sort_filter_ties (violations : List Violation) (violation : Violation) :
    (sort violations).filter (·.Ties violation) = violations.filter (·.Ties violation) := by
  -- Those that tie are in order as they stand, and sorting keeps any part that is in order.
  have inOrder : (violations.filter (·.Ties violation)).Pairwise fun earlier later =>
      (compare earlier later).isLE = true := by
    refine List.pairwise_of_forall_mem_list fun earlier first later second => ?_
    have ties := (of_decide_eq_true (List.mem_filter.mp first).2).trans_symm
      (of_decide_eq_true (List.mem_filter.mp second).2)
    exact isLE_compare.mpr (.inr ties)
  have kept := (List.sublist_mergeSort isLE_trans isLE_total inOrder List.filter_sublist).filter
    (·.Ties violation)
  simp only [List.filter_filter, Bool.and_self] at kept
  exact (kept.eq_of_length ((sort_perm violations).filter _).length_eq.symm).symm

/-- The same violations in order, with those that tie as they stood. -/
structure StablySorts (raw sorted : List Violation) : Prop where
  perm : sorted.Perm raw
  inOrder : sorted.Pairwise fun earlier later => earlier.Precedes later ∨ earlier.Ties later
  ties : ∀ violation, sorted.filter (·.Ties violation) = raw.filter (·.Ties violation)

theorem stablySorts_sort (violations : List Violation) :
    StablySorts violations (sort violations) where
  perm := sort_perm violations
  inOrder := sort_pairwise violations
  ties := sort_filter_ties violations

theorem Ties.refl (violation : Violation) : violation.Ties violation :=
  ⟨rfl, rfl, rfl, rfl, rfl⟩

theorem Ties.symm (ties : left.Ties right) : right.Ties left :=
  (Ties.refl right).trans_symm ties

theorem Ties.congr_left {other : Violation} (ties : left.Ties right) :
    left.Ties other ↔ right.Ties other :=
  ⟨fun first => ties.symm.trans_symm first.symm, fun first => ties.trans_symm first.symm⟩

theorem mem_of_filter_ties {lefts rights : List Violation} {violation : Violation}
    (ties : lefts.filter (·.Ties violation) = rights.filter (·.Ties violation))
    (member : violation ∈ lefts) : violation ∈ rights := by
  have selected : violation ∈ lefts.filter (·.Ties violation) :=
    List.mem_filter.mpr ⟨member, decide_eq_true (Ties.refl violation)⟩
  rw [ties] at selected
  exact List.mem_of_mem_filter selected

/-- The first violation of a list in order comes before all others of the list, or ties
with them. -/
theorem isLE_head {first violation : Violation} {rest : List Violation}
    (inOrder : (first :: rest).Pairwise fun earlier later =>
      earlier.Precedes later ∨ earlier.Ties later)
    (member : violation ∈ first :: rest) : (compare first violation).isLE = true := by
  rcases List.mem_cons.mp member with rfl | later
  · exact isLE_compare.mpr (.inr (Ties.refl violation))
  · exact isLE_compare.mpr (List.rel_of_pairwise_cons inOrder later)

/-- A list in order is determined by those of its violations that tie with each other. -/
theorem eq_of_filter_ties {lefts rights : List Violation}
    (leftInOrder : lefts.Pairwise fun earlier later =>
      earlier.Precedes later ∨ earlier.Ties later)
    (rightInOrder : rights.Pairwise fun earlier later =>
      earlier.Precedes later ∨ earlier.Ties later)
    (ties : ∀ violation, lefts.filter (·.Ties violation) = rights.filter (·.Ties violation)) :
    lefts = rights := by
  induction lefts generalizing rights with
  | nil =>
      cases rights with
      | nil => rfl
      | cons right rights =>
          exact absurd (mem_of_filter_ties (ties right).symm List.mem_cons_self) List.not_mem_nil
  | cons left lefts ih =>
      cases rights with
      | nil => exact absurd (mem_of_filter_ties (ties left) List.mem_cons_self) List.not_mem_nil
      | cons right rights =>
          -- Each head is in the other list, so they tie, and then they are the first to tie.
          have before := isLE_head leftInOrder
            (mem_of_filter_ties (ties right).symm List.mem_cons_self)
          have after := isLE_head rightInOrder
            (mem_of_filter_ties (ties left) List.mem_cons_self)
          have heads : right.Ties left :=
            (compare_eq_eq.mp (Std.OrientedCmp.isLE_antisymm before after)).symm
          have first := ties left
          simp only [List.filter_cons, heads, Ties.refl, decide_true, if_true,
            List.cons.injEq] at first
          obtain rfl := first.1
          have rest : lefts = rights := by
            apply ih leftInOrder.of_cons rightInOrder.of_cons
            intro violation
            have whole := ties violation
            simp only [List.filter_cons] at whole
            split at whole
            · exact (List.cons.inj whole).2
            · exact whole
          rw [rest]

theorem sort_eq_sort {lefts rights : List Violation}
    (ties : ∀ violation, lefts.filter (·.Ties violation) = rights.filter (·.Ties violation)) :
    sort lefts = sort rights := by
  apply eq_of_filter_ties (sort_pairwise lefts) (sort_pairwise rights)
  intro violation
  rw [sort_filter_ties, sort_filter_ties, ties]

theorem compare_congr {left' right' : Violation} (leftTies : left'.Ties left)
    (rightTies : right'.Ties right) : compare left' right' = compare left right := by
  rw [TransCmp.congr_left (compare_eq_eq.mpr leftTies),
    TransCmp.congr_right (compare_eq_eq.mpr rightTies)]

theorem filterMap_filter_ties {change : Violation → Option Violation}
    (keeps : ∀ before after, change before = some after → after.Ties before)
    (violations : List Violation) (violation : Violation) :
    (violations.filterMap change).filter (·.Ties violation) =
      (violations.filter (·.Ties violation)).filterMap change := by
  rw [List.filter_filterMap, List.filterMap_filter]
  apply List.filterMap_congr
  intro before _
  cases changed : change before with
  | none => simp
  | some after => simp [Option.filter, (keeps before after changed).congr_left]

/-- Dropping and changing violations commutes with sorting, as long as no key of the order
changes. -/
theorem sort_filterMap {change : Violation → Option Violation}
    (keeps : ∀ before after, change before = some after → after.Ties before)
    (violations : List Violation) :
    sort (violations.filterMap change) = (sort violations).filterMap change := by
  apply eq_of_filter_ties (sort_pairwise _)
  · apply (sort_pairwise violations).filterMap
    intro earlier later inOrder earlier' changed later' changedLater
    rw [← isLE_compare, compare_congr (keeps earlier earlier' changed)
      (keeps later later' changedLater), isLE_compare]
    exact inOrder
  · intro violation
    rw [sort_filter_ties, filterMap_filter_ties keeps, filterMap_filter_ties keeps,
      sort_filter_ties]

/-- Things with a violation each can be put in the order of their violations, and then stay in
order when some of them are dropped. -/
theorem exists_sorted {α : Type} (violation : α → Violation) (keeps : α → Bool) (items : List α) :
    ∃ sorted : List α, sorted.Perm items ∧
      sort (items.map violation) = sorted.map violation ∧
      sort ((items.filter keeps).map violation) = (sorted.filter keeps).map violation := by
  have trans (first second third : α) :=
    isLE_trans (violation first) (violation second) (violation third)
  have total (left right : α) := isLE_total (violation left) (violation right)
  have sorts (some : List α) : sort (some.map violation) = (some.mergeSort fun left right =>
      (compare (violation left) (violation right)).isLE).map violation := by
    symm
    apply List.map_mergeSort
    exact fun _ _ _ _ => rfl
  exact ⟨_, List.mergeSort_perm items _, sorts items, by rw [sorts, filter_mergeSort trans total]⟩

end Violation

end ModelLint
