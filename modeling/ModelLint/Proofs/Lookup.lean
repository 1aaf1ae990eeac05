import Mathlib.Data.List.Pairwise

namespace ModelLint

/-! Lookups in lists. Where no two members share a key, each key finds the same member in any
order of the list. -/

variable {α β κ : Type} {left right : List α}

/-- What the first member of a list gives that gives anything. -/
inductive FirstOf (gives : α → β → Prop) : List α → Option β → Prop where
  | absent {members : List α} (nowhere : ∀ member ∈ members, ∀ value, ¬ gives member value) :
      FirstOf gives members none
  | first {before after : List α} {member : α} {value : β}
      (earlier : ∀ other ∈ before, ∀ value, ¬ gives other value) (here : gives member value) :
      FirstOf gives (before ++ member :: after) (some value)

theorem firstOf_iff {gives : α → β → Prop} {find : α → Option β}
    (finds : ∀ member value, find member = some value ↔ gives member value) {members : List α}
    {value : Option β} : FirstOf gives members value ↔ members.findSome? find = value := by
  have missing (member : α) : find member = none ↔ ∀ value, ¬ gives member value := by
    simp only [Option.eq_none_iff_forall_ne_some, ne_eq, finds]
  constructor
  · intro given
    cases given with
    | absent nowhere =>
        exact List.findSome?_eq_none_iff.mpr fun member inside =>
          (missing member).mpr (nowhere member inside)
    | first earlier here =>
        exact List.findSome?_eq_some_iff.mpr ⟨_, _, _, rfl, (finds _ _).mpr here,
          fun other inside => (missing other).mpr (earlier other inside)⟩
  · rintro rfl
    cases found : members.findSome? find with
    | none =>
        have nowhere := List.findSome?_eq_none_iff.mp found
        exact .absent fun member inside => (missing member).mp (nowhere member inside)
    | some value =>
        obtain ⟨before, member, after, split, here, earlier⟩ :=
          List.findSome?_eq_some_iff.mp found
        rw [split]
        exact .first (fun other inside => (missing other).mp (earlier other inside))
          ((finds _ _).mp here)

theorem FirstOf.unique {gives : α → β → Prop} {find : α → Option β}
    (finds : ∀ member value, find member = some value ↔ gives member value) {members : List α}
    {one other : Option β} (first : FirstOf gives members one)
    (second : FirstOf gives members other) : one = other :=
  ((firstOf_iff finds).mp first).symm.trans ((firstOf_iff finds).mp second)

theorem eq_of_perm_of_short (permuted : left.Perm right) (short : right.length ≤ 1) :
    left = right := by
  match right with
  | [] => exact List.perm_nil.mp permuted
  | [only] => exact List.perm_singleton.mp permuted
  | _ :: _ :: _ => simp at short

theorem length_filter_key [DecidableEq κ] {key : α → κ} {members : List α}
    (apart : members.Pairwise fun one other => key one ≠ key other) (wanted : κ) :
    (members.filter (key · = wanted)).length ≤ 1 := by
  have among : ∀ member ∈ members.filter (key · = wanted), key member = wanted := by
    intro member selected
    exact of_decide_eq_true (List.mem_filter.mp selected).2
  have apart := apart.filter (key · = wanted)
  match selected : members.filter (key · = wanted) with
  | [] | [_] => simp
  | first :: second :: rest =>
      rw [selected] at among apart
      have same : key first = key second :=
        (among first (by simp)).trans (among second (by simp)).symm
      exact absurd same (List.rel_of_pairwise_cons apart (by simp))

theorem find?_eq_of_perm [DecidableEq κ] {key : α → κ} (permuted : left.Perm right)
    (apart : right.Pairwise fun one other => key one ≠ key other) (wanted : κ) :
    left.find? (key · = wanted) = right.find? (key · = wanted) := by
  have same := eq_of_perm_of_short (permuted.filter (key · = wanted))
    (length_filter_key apart wanted)
  rw [← List.head?_filter, same, List.head?_filter]

theorem lookup_eq_find? [BEq κ] [LawfulBEq κ] [DecidableEq κ] (entries : List (κ × β))
    (wanted : κ) :
    entries.lookup wanted = (entries.find? (·.1 = wanted)).map (·.2) := by
  induction entries with
  | nil => rfl
  | cons entry rest ih =>
      obtain ⟨key, value⟩ := entry
      by_cases here : key = wanted
      · simp [here]
      · have behind : (wanted == key) = false := beq_false_of_ne (Ne.symm here)
        simp [List.lookup_cons, behind, here, ih]

theorem lookup_eq_of_perm [BEq κ] [LawfulBEq κ] [DecidableEq κ] {entries others : List (κ × β)}
    (permuted : entries.Perm others)
    (apart : others.Pairwise fun one other => one.1 ≠ other.1) (wanted : κ) :
    entries.lookup wanted = others.lookup wanted := by
  rw [lookup_eq_find?, lookup_eq_find?, find?_eq_of_perm permuted apart wanted]

end ModelLint
