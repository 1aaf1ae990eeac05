import ModelLint.Rule
import ModelLint.Text.Blank

namespace ModelLint.Rules.MissingCaption

/-! Every field of a table has to have a caption, unless captions are not shown. -/

def descriptor : Descriptor where
  id := "CIG0002"
  name := "missing-caption"
  title := "Captions must always be defined for table fields"
  message := "Field '\x7b0\x7d' has no Caption"
  category := "Design"
  severity := .warning
  enabledByDefault := true

/-- Whether the properties of a field give it a caption or say that it needs none. -/
def isCaptioned (field : Symbol) : Bool :=
  (field.property? "ShowCaption").any (fun value =>
    Text.sameIgnoringCase (Text.trimmed value) "false") ||
  ["Caption", "CaptionClass", "CaptionML"].any fun name => (field.property? name).isSome

def isInTable (model : Model) (symbol : Symbol) : Except MissingId Bool := do
  match symbol.container with
  | some container => return (← model.symbol container).kind = .object .table
  | none => return false

def check (model : Model) (id : SymbolId) : Except MissingId (List Finding) := do
  let field ← model.symbol id
  if !(← isInTable model field) || field.isObsolete || isCaptioned field then return []
  return [← model.findingOn id [field.name]]

def rule : Rule where
  descriptor := descriptor
  interests := [.symbol .field]
  onSymbol context id := .ofCheck (check context.model id)

end ModelLint.Rules.MissingCaption
