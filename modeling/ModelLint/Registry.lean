import ModelLint.Rule

namespace ModelLint

/-! Rules, indexed by what they want to see.

The rules are kept in the order in which they are registered. The index has a slot for
every kind of node or symbol that a rule has asked for, with the positions of the rules
that want it. A rule that asks for a kind twice is in its slot once. -/

/-- Positions of rules, by what the rules want to see. -/
abbrev Slots := List (Interest × List Nat)

namespace Slots

def positions (slots : Slots) (interest : Interest) : List Nat :=
  (slots.lookup interest).getD []

/-- Puts a position into the slot of an interest, unless it is there already. -/
def enter (position : Nat) (interest : Interest) : Slots → Slots
  | [] => [(interest, [position])]
  | (other, positions) :: rest =>
      if interest = other then
        (other, if positions.contains position then positions else positions ++ [position]) :: rest
      else (other, positions) :: enter position interest rest

end Slots

structure Registry where
  rules : List Rule := []
  slots : Slots := []
deriving Inhabited

namespace Registry

/-- Registers a rule for each of its interests. -/
def register (registry : Registry) (rule : Rule) : Registry where
  rules := registry.rules ++ [rule]
  slots := rule.interests.foldl
    (fun slots interest => slots.enter registry.rules.length interest) registry.slots

def ofRules (rules : List Rule) : Registry :=
  rules.foldl register {}

/-- The rules that want to see something, in the order of their registration. -/
def wanting (registry : Registry) (interest : Interest) : List Rule :=
  (registry.slots.positions interest).filterMap (registry.rules[·]?)

end Registry

end ModelLint
