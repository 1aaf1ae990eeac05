import ModelLint.Descriptor
import ModelLint.Model.Query
import ModelLint.Text.Blank

namespace ModelLint

open ModelLint.Text

/-! Comments that allow a rule to be broken.

An allowance is written in a comment in front of a node, as in
`// cital-lint: allow(set-load-fields) reason="single record"`. It holds for the
node and for everything below it. -/

structure Allowance where
  /-- Codes and names of the rules it covers, in lower case. -/
  rules : List String
  reason : Option String
deriving DecidableEq, Repr, Inhabited

namespace Allowance

/-- Whether the allowance covers a rule. The key `all` covers every rule. -/
def covers (allowance : Allowance) (rule : Descriptor) : Bool :=
  allowance.rules.contains "all" || allowance.rules.any rule.answersTo

/-- The text inside a comment, without the marks that make it one. -/
def commentBody? (comment : List Char) : Option (List Char) :=
  let text := trim comment
  match after? "///".toList text with
  | some rest => some (trim rest)
  | none =>
      match after? "//".toList text with
      | some rest => some (trim rest)
      | none =>
          (after? "/*".toList text).map fun rest => trim ((before? "*/".toList rest).getD rest)

/-- The keys between the parentheses. -/
def keys (inner : List Char) : List String :=
  (pieces ',' inner).filterMap fun piece =>
    let key := lower (String.ofList (trim piece))
    if key = "" then none else some key

/-- The quoted reason behind the parentheses. -/
def reason? (text : List Char) : Option String := do
  let quoted ← after? "reason=".toList (trim text)
  let opened ← after? ['"'] (trim quoted)
  let (reason, _) ← cut? '"' opened
  return String.ofList reason

def parse? (comment : String) : Option Allowance := do
  let body ← commentBody? comment.toList
  let directive ← after? "cital-lint:".toList body
  let allowed ← after? "allow(".toList (trim directive)
  let (inner, behind) ← cut? ')' (trim allowed)
  let rules := keys inner
  if rules.isEmpty then none
  else some { rules := rules.eraseDups, reason := reason? behind }

/-- The first allowance among some comments that covers a rule. -/
def find? (comments : List String) (rule : Descriptor) : Option Allowance :=
  (comments.filterMap parse?).find? (·.covers rule)

end Allowance

/-- The first of some nodes with an allowance that covers a rule. -/
def Model.allowanceAmong (model : Model) (rule : Descriptor) :
    List NodeId → Except MissingId (Option Allowance)
  | [] => .ok none
  | id :: rest => do
      match Allowance.find? (← model.node id).comments rule with
      | some allowance => return some allowance
      | none => model.allowanceAmong rule rest

/-- The nearest allowance that covers a rule at a node: that of the node itself or
of one of its ancestors. -/
def Model.allowance (model : Model) (id : NodeId) (rule : Descriptor) :
    Except MissingId (Option Allowance) := do
  model.allowanceAmong rule (← model.ancestorsAndSelf id)

end ModelLint
