import ModelLint.Rule
import ModelLint.Rules.Calls

namespace ModelLint.Rules.SourceExpression

/-! Page fields must not show globals that a trigger computes for every record.

The globals looked for are those assigned in the trigger or in a procedure of the
same object that it reaches by calls. Calls into other objects are not followed. -/

def descriptor : Descriptor where
  id := "CIG0015"
  name := "source-expression-procedure"
  title :=
    "Use procedures as page field source expressions instead of globals set in OnAfterGetRecord"
  message := "Global variable '\x7b0\x7d' is set in OnAfterGetRecord; define a procedure as the " ++
    "source expression of the page field instead"
  category := "Design"
  severity := .warning
  enabledByDefault := true

def assignedAt (model : Model) (globals : List SymbolId) (id : NodeId) :
    Except MissingId (List SymbolId) := do
  let node ← model.node id
  match node.kind, node.children with
  | .assignment, target :: _ | .compoundAssignment, target :: _ =>
      let symbol ← model.identifierSymbol target
      return (symbol.filter globals.contains).toList
  | _, _ => return []

/-- A procedure with the block that holds its statements. -/
structure Procedure where
  method : SymbolId
  body : NodeId
deriving DecidableEq, Repr, Inhabited

def calledAt (model : Model) (object : SymbolId) (id : NodeId) :
    Except MissingId (List Procedure) := do
  if (← model.kind id) ≠ .invocation then return []
  let some call ← model.call id | return []
  let method ← model.symbol call.method
  if method.builtin || method.container ≠ some object then return []
  let some declaration := method.declaration | return []
  let some body ← model.body declaration | return []
  return [⟨call.method, body⟩]

/-- Keeps the procedures that have not been met, each once. -/
def unmet : (met : List SymbolId) → List Procedure → List Procedure
  | _, [] => []
  | met, procedure :: rest =>
      if met.contains procedure.method then unmet met rest
      else procedure :: unmet (procedure.method :: met) rest

/-- The globals assigned in the pending blocks and in the procedures they reach. A
procedure is followed once, so the number of symbols bounds the steps. -/
def assignedFrom (model : Model) (object : SymbolId) (globals : List SymbolId) :
    (steps : Nat) → (met : List SymbolId) → (pending : List NodeId) →
      Except MissingId (List SymbolId)
  | _, _, [] => .ok []
  | 0, _, _ :: _ => .ok []
  | steps + 1, met, block :: rest => do
      let nodes ← model.descendants block
      let assigned ← Model.gather (assignedAt model globals) nodes
      let called := unmet met (← Model.gather (calledAt model object) nodes)
      let later ← assignedFrom model object globals steps (called.map (·.method) ++ met)
        (called.map (·.body) ++ rest)
      return assigned ++ later

/-- The globals that a trigger body assigns, itself or through calls. -/
def assignedGlobals (model : Model) (object : SymbolId) (globals : List SymbolId) (body : NodeId) :
    Except MissingId (List SymbolId) :=
  assignedFrom model object globals (model.symbols.size + 1) [] [body]

/-- The first of some nodes that is an identifier for one of the globals. -/
def firstReader (model : Model) (assigned : List SymbolId) :
    List NodeId → Except MissingId (Option (NodeId × SymbolId))
  | [] => .ok none
  | id :: rest => do
      match (← model.identifierSymbol id).filter assigned.contains with
      | some symbol => return some (id, symbol)
      | none => firstReader model assigned rest

/-- The finding for a page field, if its source expression reads one of the globals. -/
def fieldFinding (model : Model) (assigned : List SymbolId) (id : NodeId) :
    Except MissingId (List Finding) := do
  let node ← model.node id
  match node.kind, node.children with
  | .pageField, source :: _ =>
      let some (reader, symbol) ← firstReader model assigned (← model.descendantsAndSelf source)
        | return []
      return [← model.findingAt reader [(← model.symbol symbol).name]]
  | _, _ => return []

def check (model : Model) (trigger : NodeId) : Except MissingId (List Finding) := do
  if !(← model.node trigger).isNamed "OnAfterGetRecord" then return []
  let some object ← model.enclosingObject trigger | return []
  if !(← model.kind object).objectKind?.any ObjectKind.isPageLike then return []
  if ← model.declaresObsolete object then return []
  let some symbol := (← model.node object).declares | return []
  let globals := ((model.membersOf symbol).filter (·.2.kind = .globalVariable)).map (·.1)
  let some body ← model.body trigger | return []
  let assigned ← assignedGlobals model symbol globals body
  if assigned.isEmpty then return []
  Model.gather (fieldFinding model assigned) (← model.descendants object)

def rule : Rule where
  descriptor := descriptor
  interests := [.node .trigger]
  onNode context id := .ofCheck (check context.model id)

end ModelLint.Rules.SourceExpression
