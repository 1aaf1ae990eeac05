import ModelLint.Rule
import ModelLint.Rules.Calls
import ModelLint.Text.Blank

namespace ModelLint.Rules.TextBuilder

/-! A text that grows in a loop should be a text builder.

Only loops of the same procedure or trigger count. -/

def descriptor : Descriptor where
  id := "CIG0014"
  name := "prefer-text-builder"
  title := "Use TextBuilder when a text is continuously extended"
  message := "Text variable '\x7b0\x7d' is extended inside a loop; use a TextBuilder instead"
  category := "Performance"
  severity := .warning
  enabledByDefault := true

/-- Whether a loop comes before a procedure or trigger among some nodes. -/
def loopFirst (model : Model) : List NodeId → Except MissingId Bool
  | [] => .ok false
  | id :: rest => do
      let kind ← model.kind id
      if kind.isLoop then return true
      else if kind.isCode then return false
      else loopFirst model rest

/-- The variable of a text type that an append extends. -/
def extendedText (model : Model) (append : Node) : Except MissingId (Option Symbol) := do
  if Text.trimmed append.name ≠ "+=" then return none
  let some target := append.children.head? | return none
  let some symbol ← model.identifierSymbol target | return none
  let extended ← model.symbol symbol
  return if extended.kind.isVariable && extended.type.kind.isText then some extended else none

def check (model : Model) (id : NodeId) : Except MissingId (List Finding) := do
  let some text ← extendedText model (← model.node id) | return []
  if !(← loopFirst model (← model.ancestors id)) then return []
  if ← model.inObsoleteObject id then return []
  return [← model.findingAt id [text.name]]

def rule : Rule where
  descriptor := descriptor
  interests := [.node .compoundAssignment]
  onNode context id := .ofCheck (check context.model id)

end ModelLint.Rules.TextBuilder
