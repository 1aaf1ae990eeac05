import Mathlib.Data.List.Basic
import ModelLint.Registry

namespace ModelLint

/-! The slots of a registry hold exactly the rules that ask for them.

However often a rule asks for a kind, it is in the slot of the kind once, and the rules
of a slot stand in the order of their registration. -/

namespace Slots

theorem positions_cons (held other : Interest) (listed : List Nat) (rest : Slots) :
    positions ((held, listed) :: rest) other =
      if other = held then listed else positions rest other := by
  by_cases same : other = held
  · simp [positions, same]
  · simp [positions, List.lookup_cons, same, beq_false_of_ne same]

theorem positions_enter (slots : Slots) (position : Nat) (interest other : Interest) :
    (slots.enter position interest).positions other =
      if other = interest ∧ position ∉ slots.positions interest then
        slots.positions interest ++ [position]
      else slots.positions other := by
  induction slots with
  | nil =>
      rw [enter, positions_cons]
      simp [positions]
  | cons slot rest ih =>
      obtain ⟨held, listed⟩ := slot
      rw [enter]
      by_cases here : interest = held
      · subst here
        simp only [positions_cons, if_true, List.contains_eq_mem, decide_eq_true_eq]
        by_cases isThere : position ∈ listed
        · simp [isThere]
        · by_cases same : other = interest
          · simp [isThere, same]
          · simp [same]
      · simp only [here, if_false, positions_cons, ih]
        by_cases same : other = interest
        · simp [same, here]
        · simp [same]

/-- After some interests have been entered for a new position, it is at the end of their
slots and of no others. -/
theorem positions_foldl_enter {position : Nat} {before : Interest → List Nat}
    (fresh : ∀ interest, position ∉ before interest) {entered interests : List Interest}
    {slots : Slots}
    (sofar : ∀ interest, slots.positions interest =
      if interest ∈ entered then before interest ++ [position] else before interest)
    (interest : Interest) :
    (interests.foldl (fun slots interest => slots.enter position interest) slots).positions
        interest =
      if interest ∈ entered ++ interests then before interest ++ [position]
      else before interest := by
  induction interests generalizing entered slots with
  | nil => rw [List.foldl_nil, sofar, List.append_nil]
  | cons next rest ih =>
      have stepped (other : Interest) : (slots.enter position next).positions other =
          if other ∈ entered ++ [next] then before other ++ [position] else before other := by
        rw [positions_enter, sofar next, sofar other]
        by_cases isEntered : next ∈ entered
        · by_cases same : other = next
          · simp [same, isEntered]
          · simp [same, isEntered]
        · by_cases same : other = next
          · simp [same, isEntered, fresh next]
          · simp [same, isEntered]
      rw [List.foldl_cons, ih stepped]
      simp

end Slots

namespace Registry

/-- The positions of the rules that ask for something, in order. -/
def positionsWanting (rules : List Rule) (interest : Interest) : List Nat :=
  (rules.zipIdx.filter fun entry => entry.1.interests.contains interest).map (·.2)

theorem lt_of_mem_positionsWanting {rules : List Rule} {interest : Interest} {position : Nat}
    (member : position ∈ positionsWanting rules interest) : position < rules.length := by
  obtain ⟨entry, selected, rfl⟩ := List.mem_map.mp member
  have listed := List.mem_zipIdx_iff_getElem?.mp (List.mem_of_mem_filter selected)
  exact (List.getElem?_eq_some_iff.mp listed).1

/-- Every slot has the positions of the rules that ask for it. -/
def Indexed (registry : Registry) : Prop :=
  ∀ interest, registry.slots.positions interest = positionsWanting registry.rules interest

theorem Indexed.register {registry : Registry} (indexed : registry.Indexed) (rule : Rule) :
    (registry.register rule).Indexed := by
  intro interest
  have fresh (other : Interest) :
      registry.rules.length ∉ positionsWanting registry.rules other := fun member =>
    Nat.lt_irrefl _ (lt_of_mem_positionsWanting member)
  have nothing (other : Interest) : registry.slots.positions other =
      if other ∈ ([] : List Interest) then
        positionsWanting registry.rules other ++ [registry.rules.length]
      else positionsWanting registry.rules other := by
    rw [if_neg List.not_mem_nil]
    exact indexed other
  simp only [Registry.register]
  rw [Slots.positions_foldl_enter fresh nothing, List.nil_append]
  by_cases wanted : interest ∈ rule.interests
  · simp [positionsWanting, List.zipIdx_append, wanted]
  · simp [positionsWanting, List.zipIdx_append, wanted]

theorem indexed_foldl {registry : Registry} (indexed : registry.Indexed) (rules : List Rule) :
    (rules.foldl register registry).Indexed ∧
      (rules.foldl register registry).rules = registry.rules ++ rules := by
  induction rules generalizing registry with
  | nil => exact ⟨indexed, by simp⟩
  | cons rule rest ih =>
      obtain ⟨laterIndexed, laterRules⟩ := ih (indexed.register rule)
      refine ⟨laterIndexed, ?_⟩
      rw [List.foldl_cons, laterRules]
      simp [Registry.register]

theorem filterMap_positionsWanting (rules : List Rule) (interest : Interest) :
    (positionsWanting rules interest).filterMap (rules[·]?) =
      rules.filter (·.interests.contains interest) := by
  have found : ∀ entry ∈ rules.zipIdx.filter fun entry => entry.1.interests.contains interest,
      rules[entry.2]? = some entry.1 := fun entry selected =>
    List.mem_zipIdx_iff_getElem?.mp (List.mem_of_mem_filter selected)
  calc
    _ = (rules.zipIdx.filter fun entry => entry.1.interests.contains interest).map (·.1) := by
        rw [positionsWanting, List.filterMap_map, ← List.filterMap_eq_map]
        exact List.filterMap_congr found
    _ = (rules.zipIdx.map (·.1)).filter (·.interests.contains interest) := by
        rw [List.filter_map]
        rfl
    _ = _ := by rw [List.zipIdx_map_fst]

theorem wanting_ofRules (rules : List Rule) (interest : Interest) :
    (ofRules rules).wanting interest = rules.filter (·.interests.contains interest) := by
  have empty : ({} : Registry).Indexed := fun _ => rfl
  obtain ⟨indexed, same⟩ := indexed_foldl empty rules
  rw [wanting, ofRules, indexed, same]
  exact filterMap_positionsWanting rules interest

end Registry

end ModelLint
