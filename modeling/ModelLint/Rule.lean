import ModelLint.Descriptor
import ModelLint.Model.Query

namespace ModelLint

/-! Rules and what they report. -/

/-- What a rule wants to see. -/
inductive Interest where
  | node (kind : NodeKind)
  | symbol (kind : SymbolKind)
deriving DecidableEq, Repr, Inhabited

/-- Where a finding points. -/
inductive Place where
  | span (span : Span)
  /-- The file as a whole. -/
  | file
deriving DecidableEq, Repr, Inhabited

/-- What a rule has to say about one place. -/
structure Finding where
  place : Place
  /-- Arguments of the rule's message. -/
  args : List String
  /-- Node at which allowances for the finding are looked up. -/
  anchor : Option NodeId
deriving DecidableEq, Repr, Inhabited

/-- A finding with the code of the rule it comes from. -/
structure Diagnostic extends Finding where
  ruleId : String
deriving DecidableEq, Repr, Inhabited

/-- Why a rule failed. -/
inductive Fault where
  | missing (id : MissingId)
  /-- The model does not have the form that the rule relies on. -/
  | shape (reason : String)
  | failure (reason : String)
deriving DecidableEq, Repr, Inhabited

def Fault.reason : Fault → String
  | missing id => id.message
  | shape reason => "unexpected model shape: " ++ reason
  | failure reason => reason

/-- What one call of a rule did. -/
structure Outcome where
  findings : List Finding := []
  fault : Option Fault := none
  /-- Whether the call asked for the whole run to be cancelled. -/
  cancels : Bool := false
deriving DecidableEq, Repr, Inhabited

/-- The outcome of a check that fails only where an id has nothing behind it, and
then reports nothing. -/
def Outcome.ofCheck : Except MissingId (List Finding) → Outcome
  | .ok findings => { findings := findings }
  | .error id => { fault := some (.missing id) }

/-- What a rule is given besides the node or symbol it looks at. -/
structure Context where
  model : Model
  /-- Path of the source file as seen from the analysis. -/
  sourcePath : String
  /-- Whether cancellation has been asked for. -/
  cancelled : Bool := false
deriving Repr, Inhabited

structure Rule where
  descriptor : Descriptor
  interests : List Interest
  onNode : Context → NodeId → Outcome := fun _ _ => {}
  onSymbol : Context → SymbolId → Outcome := fun _ _ => {}
deriving Inhabited

namespace Model

def findingAt (model : Model) (id : NodeId) (args : List String) : Except MissingId Finding :=
  return { place := .span (← model.node id).span, args := args, anchor := some id }

/-- A finding about the file, anchored at a node. -/
def findingInFile (id : NodeId) (args : List String) : Finding :=
  { place := .file, args := args, anchor := some id }

/-- A finding at the declaration of a symbol, or about the file if it has none. -/
def findingOn (model : Model) (id : SymbolId) (args : List String) : Except MissingId Finding := do
  match (← model.symbol id).declaration with
  | some node => model.findingAt node args
  | none => return { place := .file, args := args, anchor := none }

end Model

end ModelLint
