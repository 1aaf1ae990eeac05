import ModelLint.Model.Query

namespace ModelLint.Model

/-! Calls, receivers and enclosing `with` statements, as several rules need them. -/

/-- What is found at each of some nodes, in order. -/
def gather {α β : Type} (find : α → Except MissingId (List β)) : List α → Except MissingId (List β)
  | [] => .ok []
  | place :: rest => do
      let found ← find place
      let later ← gather find rest
      return found ++ later

/-- The method that an invocation calls. -/
structure Call where
  method : SymbolId
  /-- The expression in front of the dot, if there is one. -/
  receiver : Option NodeId
deriving DecidableEq, Repr, Inhabited

/-- The node that names the called method, and the receiver. -/
def calleeParts (model : Model) (callee : NodeId) :
    Except MissingId (Option (NodeId × Option NodeId)) := do
  let node ← model.node callee
  match node.kind, node.children with
  | .memberAccess, receiver :: member :: _ => return some (member, some receiver)
  | .identifier, _ => return some (callee, none)
  | _, _ => return none

/-- The method that an invocation calls, if its callee names one. -/
def call (model : Model) (invocation : NodeId) : Except MissingId (Option Call) := do
  let some callee ← model.child? invocation 0 | return none
  let some (name, receiver) ← model.calleeParts callee | return none
  let some method ← model.resolvedId name | return none
  if (← model.symbol method).kind = .method then return some ⟨method, receiver⟩
  else return none

/-- The platform method that an invocation calls. -/
def builtinCall (model : Model) (invocation : NodeId) :
    Except MissingId (Option (Call × Symbol)) := do
  let some call ← model.call invocation | return none
  let method ← model.symbol call.method
  if method.builtin then return some (call, method) else return none

/-- The target of the first `with` statement among some nodes. -/
def withTargetAmong (model : Model) : List NodeId → Except MissingId (Option NodeId)
  | [] => .ok none
  | id :: rest => do
      let node ← model.node id
      if node.kind = .withStatement then return node.children.head?
      else model.withTargetAmong rest

/-- The target of the nearest `with` statement around a node and below `stop`. -/
def withTarget (model : Model) (id stop : NodeId) : Except MissingId (Option NodeId) := do
  model.withTargetAmong ((← model.ancestors id).takeWhile (· ≠ stop))

/-- The symbol behind a node that is a plain identifier. -/
def identifierSymbol (model : Model) (id : NodeId) : Except MissingId (Option SymbolId) := do
  let node ← model.node id
  return if node.kind = .identifier then node.symbol else none

def inObsoleteObject (model : Model) (id : NodeId) : Except MissingId Bool := do
  match ← model.enclosingObject id with
  | some object => model.declaresObsolete object
  | none => return false

end ModelLint.Model
