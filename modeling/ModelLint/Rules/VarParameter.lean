import ModelLint.Rule
import ModelLint.Rules.Calls
import ModelLint.Text.LetterCase
import ModelLint.Text.Search

namespace ModelLint.Rules.VarParameter

/-! Parameters passed by reference have to be modified.

A parameter is modified if it or a member of it is assigned, or if one of its
methods is called. A comment in front of the procedure that speaks of a filter and
names the parameter explains why it is passed by reference. -/

def descriptor : Descriptor where
  id := "CIG0010"
  name := "var-parameter-unmodified"
  title := "Call by reference may only be used if the parameter is modified"
  message := "Parameter '\x7b0\x7d' is passed by reference but never modified"
  category := "Design"
  severity := .warning
  enabledByDefault := true

/-- The symbol behind the receiver of a member access. -/
def receiverSymbol (model : Model) (id : NodeId) : Except MissingId (Option SymbolId) := do
  let node ← model.node id
  match node.kind, node.children with
  | .memberAccess, receiver :: _ => model.identifierSymbol receiver
  | _, _ => return none

/-- The symbol that an assignment to `target` modifies. -/
def writtenSymbol (model : Model) (target : NodeId) : Except MissingId (Option SymbolId) := do
  if (← model.kind target) = .identifier then model.identifierSymbol target
  else receiverSymbol model target

def modifiedAt (model : Model) (id : NodeId) : Except MissingId (List SymbolId) := do
  let node ← model.node id
  match node.kind, node.children with
  | .assignment, target :: _ | .compoundAssignment, target :: _ =>
      return (← writtenSymbol model target).toList
  | .invocation, callee :: _ => return (← receiverSymbol model callee).toList
  | _, _ => return []

/-- A parameter passed by reference. -/
structure Parameter where
  node : NodeId
  symbol : SymbolId
  name : String
deriving DecidableEq, Repr, Inhabited

/-- The parameter passed by reference that a child of a procedure declares. -/
def parameterAt (model : Model) (id : NodeId) : Except MissingId (List Parameter) := do
  let node ← model.node id
  match node.kind, node.declares with
  | .parameter, some symbol =>
      let declared ← model.symbol symbol
      return if declared.byReference then [⟨id, symbol, declared.name⟩] else []
  | _, _ => return []

/-- Whether one of the comments speaks of a filter and names the parameter. -/
def isExplained (comments : List String) (name : String) : Bool :=
  comments.any fun comment =>
    let lowered := Text.lowerAll comment
    Text.occursIn "filter".toList lowered && Text.occursIn (Text.lowerAll name) lowered

def finding (model : Model) (parameter : Parameter) : Except MissingId (List Finding) :=
  return [← model.findingAt parameter.node [parameter.name]]

def check (model : Model) (procedure : NodeId) : Except MissingId (List Finding) := do
  let node ← model.node procedure
  let parameters ← Model.gather (parameterAt model) node.children
  let modified ← Model.gather (modifiedAt model) (← model.descendants procedure)
  Model.gather (finding model) <| parameters.filter fun parameter =>
    !modified.contains parameter.symbol && !isExplained node.comments parameter.name

def rule : Rule where
  descriptor := descriptor
  interests := [.node .procedure]
  onNode context id := .ofCheck (check context.model id)

end ModelLint.Rules.VarParameter
