import ModelLint.Path
import ModelLint.Registry

namespace ModelLint.Dispatch

/-! Running rules over a model.

Every node is shown to the rules that want its kind, each node before those below
it, and then every symbol in table order. The rules see a node or symbol in the
order in which they are registered. A rule that fails leaves a fault in the place of
what it might have reported, and the run goes on.

A run that is cancelled stops at the next child of the root, or at the symbols if
there is none. -/

/-- What came of some calls, in order. -/
structure Record where
  diagnostics : List Diagnostic
  /-- Whether cancellation had been asked for when the calls were done. -/
  cancelled : Bool
deriving DecidableEq, Repr, Inhabited

/-- The diagnostic that stands for a failed rule. -/
def faultOf (rule : Rule) (anchor : Option NodeId) (place : Place) (fault : Fault) :
    Diagnostic where
  ruleId := Descriptor.ruleFault.id
  place := place
  args := [rule.descriptor.id, fault.reason]
  anchor := anchor

/-- The diagnostics of one call: what the rule reported, and a fault if it failed. -/
def diagnosticsOf (rule : Rule) (anchor : Option NodeId) (place : Place) (outcome : Outcome) :
    List Diagnostic :=
  (outcome.findings.map fun finding => { finding with ruleId := rule.descriptor.id }) ++
    (outcome.fault.map (faultOf rule anchor place)).toList

def placeOf (model : Model) : Option NodeId → Place
  | some id => ((model.nodes[id]?).map fun node => Place.span node.span).getD .file
  | none => .file

/-- Makes one call to each of some rules. -/
def callAll (anchor : Option NodeId) (place : Place) (call : Rule → Bool → Outcome) :
    (rules : List Rule) → (cancelled : Bool) → Record
  | [], cancelled => ⟨[], cancelled⟩
  | rule :: rest, cancelled =>
      let outcome := call rule cancelled
      let later := callAll anchor place call rest (cancelled || outcome.cancels)
      ⟨diagnosticsOf rule anchor place outcome ++ later.diagnostics, later.cancelled⟩

/-- Shows a node to the rules that want it. -/
def showNode (registry : Registry) (sourcePath : String) (model : Model) (id : NodeId) (node : Node)
    (cancelled : Bool) : Record :=
  callAll (some id) (.span node.span)
    (fun rule cancelled => rule.onNode ⟨model, sourcePath, cancelled⟩ id)
    (registry.wanting (.node node.kind)) cancelled

/-- Shows some nodes in turn. The flag says whether the run was stopped. -/
def showNodes (registry : Registry) (sourcePath : String) (model : Model) :
    (ids : List NodeId) → (cancelled : Bool) → Record × Bool
  | [], cancelled => (⟨[], cancelled⟩, false)
  | id :: rest, cancelled =>
      match model.nodes[id]? with
      | none => showNodes registry sourcePath model rest cancelled
      | some node =>
          if cancelled ∧ node.parent = some model.root then (⟨[], cancelled⟩, true)
          else
            let here := showNode registry sourcePath model id node cancelled
            let (later, stopped) := showNodes registry sourcePath model rest here.cancelled
            (⟨here.diagnostics ++ later.diagnostics, later.cancelled⟩, stopped)

/-- Shows a symbol to the rules that want it. -/
def showSymbol (registry : Registry) (sourcePath : String) (model : Model) (id : SymbolId)
    (symbol : Symbol) (cancelled : Bool) : Record :=
  callAll symbol.declaration (placeOf model symbol.declaration)
    (fun rule cancelled => rule.onSymbol ⟨model, sourcePath, cancelled⟩ id)
    (registry.wanting (.symbol symbol.kind)) cancelled

/-- Shows some symbols in turn. -/
def showSymbols (registry : Registry) (sourcePath : String) (model : Model) :
    (symbols : List (Symbol × SymbolId)) → (cancelled : Bool) → Record
  | [], cancelled => ⟨[], cancelled⟩
  | (symbol, id) :: rest, cancelled =>
      let here := showSymbol registry sourcePath model id symbol cancelled
      let later := showSymbols registry sourcePath model rest here.cancelled
      ⟨here.diagnostics ++ later.diagnostics, later.cancelled⟩

structure Run extends Record where
  /-- Whether the run came to its end. -/
  completed : Bool
deriving DecidableEq, Repr, Inhabited

/-- Runs rules over a model whose source path is taken as seen from `sourceRoot`. -/
def run (rules : List Rule) (sourceRoot : String) (model : Model) (cancelled : Bool) : Run :=
  if cancelled then ⟨⟨[], cancelled⟩, false⟩
  else
    let registry := Registry.ofRules rules
    let sourcePath := Path.join sourceRoot model.filePath
    let ids := match model.walk with
      | .ok ids => ids
      | .error _ => []
    let (onNodes, stopped) := showNodes registry sourcePath model ids cancelled
    if stopped || onNodes.cancelled then ⟨onNodes, false⟩
    else
      let onSymbols :=
        showSymbols registry sourcePath model model.symbols.toList.zipIdx onNodes.cancelled
      ⟨⟨onNodes.diagnostics ++ onSymbols.diagnostics, onSymbols.cancelled⟩, true⟩

end ModelLint.Dispatch
