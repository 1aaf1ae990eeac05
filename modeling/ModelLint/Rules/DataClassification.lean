import ModelLint.Rule
import ModelLint.Settings

namespace ModelLint.Rules.DataClassification

/-! The default data classification should not be spelled out, except in apps for
the marketplace. -/

def descriptor : Descriptor where
  id := "CIG0003"
  name := "redundant-data-classification"
  title := "Omit DataClassification except for AppSource apps"
  message :=
    "DataClassification 'CustomerContent' on '\x7b0\x7d' is the default and should be omitted"
  category := "Design"
  severity := .warning
  enabledByDefault := true

/-- Whether a symbol spells out the default classification. -/
def isDefault (symbol : Symbol) : Bool :=
  (symbol.property? "DataClassification").any fun value => Text.trimmed value = "CustomerContent"

/-- The node of the property below the declaration of a symbol. -/
def propertyNode (model : Model) (symbol : Symbol) : Except MissingId (Option NodeId) := do
  match symbol.declaration with
  | some declaration =>
      model.findNode (fun node => node.kind = .property && node.isNamed "DataClassification")
        (← model.children declaration)
  | none => return none

def check (settings : SettingsSource) (context : Context) (id : SymbolId) :
    Except MissingId (List Finding) := do
  let model := context.model
  let symbol ← model.symbol id
  if symbol.isObsolete || !isDefault symbol then return []
  if (settings context.sourcePath).any (·.isAppSource) then return []
  match ← propertyNode model symbol with
  | some node => return [← model.findingAt node [symbol.name]]
  | none => return [← model.findingOn id [symbol.name]]

def rule (settings : SettingsSource) : Rule where
  descriptor := descriptor
  interests := [.symbol .field, .symbol (.object .table)]
  onSymbol context id := .ofCheck (check settings context id)

end ModelLint.Rules.DataClassification
