import ModelLint.Rule
import ModelLint.Rules.Calls

namespace ModelLint.Rules.SetLoadFields

/-! Records must not be fetched with all their fields.

Before a record is fetched, the fields to load have to be chosen. The statements of
a procedure are read in the order in which they are evaluated: the arguments of a
call before the call, the source of an assignment before its target. A fetch is
reported if the last choice made for its record was none, or was taken back.

A record is exempt if it takes part in a transfer of all its fields, or if more
than a given number of its fields are used in the procedure. Temporary records are
never looked at. -/

def descriptor : Descriptor where
  id := "CIG0011"
  name := "set-load-fields"
  title := "SetLoadFields must be used before fetching a record"
  message := "Use SetLoadFields on '\x7b0\x7d' before calling '\x7b1\x7d'"
  category := "Performance"
  severity := .warning
  enabledByDefault := true

/-- The number of fields above which a record is exempt, unless configured. -/
def defaultThreshold : Nat := 10

def fetchMethods : List String := ["FindSet", "FindFirst", "FindLast", "Find", "Get"]

def setterMethods : List String := ["SetLoadFields", "AddLoadFields"]

/-- The methods that take the choice back. -/
def clearerMethods : List String := ["ClearLoadFields"]

def isOneOf (methods : List String) (name : String) : Bool :=
  methods.any (Text.sameIgnoringCase · name)

/-- The record variable behind an expression, unless it is a temporary one. -/
def trackedRecord (model : Model) (expression : NodeId) : Except MissingId (Option SymbolId) := do
  let some id ← model.resolvedId expression | return none
  let symbol ← model.symbol id
  return if symbol.isRecordVariable && !symbol.type.temporary then some id else none

/-- The receiver of a call: the one in front of the dot, or else the target of the
`with` statement around it. -/
def receiver (model : Model) (body invocation : NodeId) (call : Model.Call) :
    Except MissingId (Option NodeId) :=
  match call.receiver with
  | some receiver => return some receiver
  | none => model.withTarget invocation body

/-- The tracked record behind an expression that may be missing. -/
def trackedReceiver (model : Model) : Option NodeId → Except MissingId (Option SymbolId)
  | some expression => trackedRecord model expression
  | none => return none

/-- The records that an invocation copies whole, as its receiver or an argument. -/
def transferredAt (model : Model) (body id : NodeId) : Except MissingId (List SymbolId) := do
  let node ← model.node id
  if node.kind ≠ .invocation then return []
  let some (call, method) ← model.builtinCall id | return []
  if !Text.sameIgnoringCase method.name "TransferFields" then return []
  let target ← trackedReceiver model (← receiver model body id call)
  let sources ← Model.gather (fun argument => return (← trackedRecord model argument).toList)
    node.children.tail
  return target.toList ++ sources

def fieldSymbol (model : Model) (id : NodeId) : Except MissingId (Option SymbolId) := do
  let some symbol ← model.resolvedId id | return none
  return if (← model.symbol symbol).kind = .field then some symbol else none

def isMemberName (model : Model) (id : NodeId) : Except MissingId Bool := do
  let some parent ← model.parent id | return false
  let node ← model.node parent
  return node.kind = .memberAccess && node.children[1]? = some id

abbrev FieldUse := SymbolId × SymbolId

/-- The field that a node uses, with its record: a member access, or the bare name
of a field inside a `with` statement. -/
def fieldUseAt (model : Model) (body id : NodeId) : Except MissingId (List FieldUse) := do
  let node ← model.node id
  let (record, field) ← match node.kind, node.children with
    | .memberAccess, receiver :: member :: _ =>
        pure (← trackedRecord model receiver, ← fieldSymbol model member)
    | .identifier, _ =>
        if ← isMemberName model id then pure (none, none)
        else
          let some field ← fieldSymbol model id | return []
          pure (← trackedReceiver model (← model.withTarget id body), some field)
    | _, _ => pure (none, none)
  match record, field with
  | some record, some field => return [(record, field)]
  | _, _ => return []

/-- What the statements of a procedure do with whole records and with fields. -/
structure Usage where
  transferred : List SymbolId
  fields : List FieldUse
deriving DecidableEq, Repr, Inhabited

def usage (model : Model) (body : NodeId) : Except MissingId Usage := do
  let nodes ← model.descendants body
  return {
    transferred := ← Model.gather (transferredAt model body) nodes
    fields := ← Model.gather (fieldUseAt model body) nodes }

/-- The fields of a record that are used, each once. -/
def Usage.fieldsOf (usage : Usage) (record : SymbolId) : List SymbolId :=
  ((usage.fields.filter (·.1 = record)).map (·.2)).eraseDups

/-- Whether fetching all the fields of a record is fine. -/
def Usage.exempts (usage : Usage) (threshold : Nat) (record : SymbolId) : Bool :=
  usage.transferred.contains record || threshold < (usage.fieldsOf record).length

/-- A fetch of a record by a method. -/
structure Fetch where
  call : NodeId
  record : SymbolId
  method : String
deriving DecidableEq, Repr, Inhabited

/-- Something that happens to a tracked record. -/
inductive Event where
  /-- The fields to load are chosen. -/
  | choose (record : SymbolId)
  /-- The choice is taken back, or the record is assigned. -/
  | forget (record : SymbolId)
  | fetch (fetch : Fetch)
deriving DecidableEq, Repr, Inhabited

def eventOf (call : NodeId) (record : SymbolId) (method : String) : Option Event :=
  if isOneOf setterMethods method then some (.choose record)
  else if isOneOf clearerMethods method then some (.forget record)
  else if isOneOf fetchMethods method then some (.fetch ⟨call, record, method⟩)
  else none

def callEvent (model : Model) (body invocation : NodeId) : Except MissingId (List Event) := do
  let some (call, method) ← model.builtinCall invocation | return []
  let some record ← trackedReceiver model (← receiver model body invocation call) | return []
  return (eventOf invocation record method.name).toList

def assignmentEvent (model : Model) (target : NodeId) : Except MissingId (List Event) := do
  if (← model.kind target) ≠ .identifier then return []
  return (← trackedRecord model target).toList.map .forget

/-- The events at a node and below it, in the order of evaluation. The depth of the
tree bounds the recursion. -/
def events (model : Model) (body : NodeId) :
    (depth : Nat) → NodeId → Except MissingId (List Event)
  | 0, _ => .ok []
  | depth + 1, id => do
      let node ← model.node id
      match node.kind, node.children with
      | .assignment, target :: sources =>
          let before ← Model.gather (events model body depth) (sources ++ [target])
          return before ++ (← assignmentEvent model target)
      | .invocation, children =>
          let before ← Model.gather (events model body depth) children
          return before ++ (← callEvent model body id)
      | _, children => Model.gather (events model body depth) children

/-- The fetches of records that are not exempt and for which no fields are chosen. -/
def unchosen (exempt : SymbolId → Bool) : (chosen : List SymbolId) → List Event → List Fetch
  | _, [] => []
  | chosen, .choose record :: rest => unchosen exempt (record :: chosen) rest
  | chosen, .forget record :: rest => unchosen exempt (chosen.filter (· ≠ record)) rest
  | chosen, .fetch fetch :: rest =>
      if chosen.contains fetch.record || exempt fetch.record then unchosen exempt chosen rest
      else fetch :: unchosen exempt chosen rest

/-- The fetches to report in the body of a procedure. -/
def fetches (model : Model) (threshold : Nat) (body : NodeId) : Except MissingId (List Fetch) := do
  let usage ← usage model body
  return unchosen (usage.exempts threshold) [] (← events model body model.nodes.size body)

def finding (model : Model) (fetch : Fetch) : Except MissingId (List Finding) := do
  let record ← model.symbol fetch.record
  return [← model.findingAt fetch.call [record.name, fetch.method]]

def check (threshold : Nat) (model : Model) (procedure : NodeId) :
    Except MissingId (List Finding) := do
  if ← model.inObsoleteObject procedure then return []
  let some body ← model.body procedure | return []
  Model.gather (finding model) (← fetches model threshold body)

def rule (threshold : Nat) : Rule where
  descriptor := descriptor
  interests := [.node .procedure]
  onNode context id := .ofCheck (check threshold context.model id)

end ModelLint.Rules.SetLoadFields
