import ModelLint.Proofs.Rules.Faultless

namespace ModelLint

/-! Where findings are anchored.

A finding points at a node of the model, and allowances are looked up from there. Only a finding
about a symbol that the model does not declare has no such node. -/

namespace Fallible

variable {ε α β : Type}

/-- If a computation has a result, the result has a property. -/
def Ensures (computation : Except ε α) (holds : α → Prop) : Prop :=
  ∀ value, computation = .ok value → holds value

theorem ensures_ok {value : α} {holds : α → Prop} (here : holds value) :
    Ensures (.ok value : Except ε α) holds := by
  intro other same
  cases same
  exact here

theorem ensures_nil {holds : α → Prop} :
    Ensures (.ok [] : Except ε (List α)) fun found => ∀ value ∈ found, holds value :=
  ensures_ok (by simp)

theorem Ensures.bind {first : Except ε α} {next : α → Except ε β} {known : α → Prop}
    {holds : β → Prop} (before : Ensures first known)
    (rest : ∀ value, known value → Ensures (next value) holds) :
    Ensures (first >>= next) holds := by
  intro result finished
  obtain ⟨value, isOk, later⟩ := bind_eq_ok.mp finished
  exact rest value (before value isOk) result later

theorem ensures_bind {first : Except ε α} {next : α → Except ε β} {holds : β → Prop}
    (rest : ∀ value, Ensures (next value) holds) : Ensures (first >>= next) holds := by
  intro result finished
  obtain ⟨value, _, later⟩ := bind_eq_ok.mp finished
  exact rest value result later

end Fallible

open Fallible

namespace Model

variable {model : Model} {id : NodeId}

/-- A finding is anchored at a node of the model. -/
def Anchors (model : Model) (finding : Finding) : Prop :=
  ∃ anchor < model.nodes.size, finding.anchor = some anchor

theorem gather_ensures {α β : Type} {find : α → Except MissingId (List β)} {holds : β → Prop}
    (each : ∀ place, Ensures (find place) fun found => ∀ value ∈ found, holds value)
    (places : List α) : Ensures (gather find places) fun found => ∀ value ∈ found, holds value := by
  induction places with
  | nil => exact ensures_nil
  | cons place rest ih =>
      refine (each place).bind fun found here => ih.bind fun later there => ensures_ok ?_
      intro value member
      exact (List.mem_append.mp member).elim (here value) (there value)

theorem found_of_node {node : Node} (answered : model.node id = .ok node) :
    model.nodes[id]? = some node := by
  unfold Model.node at answered
  cases found : model.nodes[id]? <;> simp_all

theorem found_of_symbol {id : SymbolId} {symbol : Symbol}
    (answered : model.symbol id = .ok symbol) :
    model.symbols[id]? = some symbol := by
  unfold Model.symbol at answered
  cases found : model.symbols[id]? <;> simp_all

theorem findingAt_anchors (args : List String) :
    Ensures (model.findingAt id args) model.Anchors := by
  intro finding answered
  obtain ⟨node, found, made⟩ := bind_eq_ok.mp answered
  cases made
  exact ⟨id, lt_size_of_found (found_of_node found), rfl⟩

/-- Whatever else is done, one finding at a node is anchored. -/
theorem findingAt_singleton (args : List String) :
    Ensures (do return [← model.findingAt id args]) fun findings =>
      ∀ finding ∈ findings, model.Anchors finding :=
  (findingAt_anchors args).bind fun finding anchored => ensures_ok (by simpa using anchored)

end Model

namespace Rules

variable {model : Model} {id : NodeId}

theorem CalcFields.check_anchors :
    Ensures (check model id) fun findings => ∀ finding ∈ findings, model.Anchors finding := by
  unfold check
  refine ensures_bind fun called => ?_
  split
  · split
    · exact ensures_nil
    · refine ensures_bind fun obsolete => ?_
      split
      · exact ensures_nil
      · exact Model.findingAt_singleton []
  · exact ensures_nil

theorem TextBuilder.check_anchors :
    Ensures (check model id) fun findings => ∀ finding ∈ findings, model.Anchors finding := by
  unfold check
  refine ensures_bind fun node => ensures_bind fun extended => ?_
  split
  · refine ensures_bind fun above => ensures_bind fun inLoop => ?_
    split
    · exact ensures_nil
    · refine ensures_bind fun obsolete => ?_
      split
      · exact ensures_nil
      · exact Model.findingAt_singleton _
  · exact ensures_nil

theorem VarParameter.check_anchors :
    Ensures (check model id) fun findings => ∀ finding ∈ findings, model.Anchors finding := by
  unfold check
  refine ensures_bind fun node => ensures_bind fun parameters => ensures_bind fun below => ?_
  refine ensures_bind fun modified => ?_
  exact Model.gather_ensures (fun parameter => Model.findingAt_singleton _) _

theorem SetLoadFields.check_anchors (threshold : Nat) :
    Ensures (check threshold model id) fun findings =>
      ∀ finding ∈ findings, model.Anchors finding := by
  unfold check
  refine ensures_bind fun obsolete => ?_
  split
  · exact ensures_nil
  · refine ensures_bind fun body => ?_
    split
    · refine ensures_bind fun fetches => Model.gather_ensures (fun fetch => ?_) _
      exact ensures_bind fun record => Model.findingAt_singleton _
    · exact ensures_nil

theorem SourceExpression.fieldFinding_anchors (assigned : List SymbolId) :
    Ensures (fieldFinding model assigned id) fun findings =>
      ∀ finding ∈ findings, model.Anchors finding := by
  unfold fieldFinding
  refine ensures_bind fun node => ?_
  split
  · refine ensures_bind fun below => ensures_bind fun reader => ?_
    split
    · refine ensures_bind fun symbol => ?_
      exact Model.findingAt_singleton _
    · exact ensures_nil
  · exact ensures_nil

theorem SourceExpression.check_anchors :
    Ensures (check model id) fun findings => ∀ finding ∈ findings, model.Anchors finding := by
  unfold check
  refine ensures_bind fun trigger => ?_
  split
  · exact ensures_nil
  · refine ensures_bind fun object => ?_
    split
    · refine ensures_bind fun kind => ?_
      split
      · exact ensures_nil
      · refine ensures_bind fun obsolete => ?_
        split
        · exact ensures_nil
        · refine ensures_bind fun node => ?_
          split
          · refine ensures_bind fun body => ?_
            split
            · refine ensures_bind fun assigned => ?_
              split
              · exact ensures_nil
              · refine ensures_bind fun below => ?_
                exact Model.gather_ensures (fun field => fieldFinding_anchors assigned) below
            · exact ensures_nil
          · exact ensures_nil
    · exact ensures_nil

theorem ProjectStructure.check_anchors {organization : String} {settings : SettingsSource}
    {path : String} {cancelled : Bool} {kind : ObjectKind} (inside : id < model.nodes.size) :
    Ensures (check organization settings ⟨model, path, cancelled⟩ id kind) fun findings =>
      ∀ finding ∈ findings, model.Anchors finding := by
  unfold check
  dsimp only
  split
  · split
    · exact ensures_nil
    · refine ensures_bind fun subscribes => ?_
      split
      · exact ensures_nil
      · refine ensures_bind fun names => ?_
        split
        · exact ensures_ok (by simpa [Model.findingInFile, Model.Anchors] using inside)
        · exact ensures_nil
  · exact ensures_nil

/-- A finding about a symbol is anchored, unless the model does not declare the symbol. -/
def AnchorsOn (model : Model) (id : SymbolId) (finding : Finding) : Prop :=
  model.Anchors finding ∨
    finding.anchor = none ∧ ∃ symbol, model.symbols[id]? = some symbol ∧ symbol.declaration = none

theorem findingOn_anchors {id : SymbolId} (args : List String) :
    Ensures (do return [← model.findingOn id args]) fun findings =>
      ∀ finding ∈ findings, AnchorsOn model id finding := by
  have anchors : Ensures (model.findingOn id args) (AnchorsOn model id) := by
    intro finding answered
    obtain ⟨symbol, found, made⟩ := bind_eq_ok.mp answered
    cases declared : symbol.declaration with
    | some node =>
        rw [declared] at made
        exact .inl (Model.findingAt_anchors args finding made)
    | none =>
        rw [declared] at made
        cases made
        exact .inr ⟨rfl, symbol, Model.found_of_symbol found, declared⟩
  exact anchors.bind fun finding anchored => ensures_ok (by simpa using anchored)

theorem MissingCaption.check_anchors {id : SymbolId} :
    Ensures (check model id) fun findings => ∀ finding ∈ findings, AnchorsOn model id finding := by
  unfold check
  refine ensures_bind fun field => ensures_bind fun isIn => ?_
  split
  · exact ensures_nil
  · exact findingOn_anchors _

theorem DataClassification.check_anchors {settings : SettingsSource} {path : String}
    {cancelled : Bool} {id : SymbolId} :
    Ensures (check settings ⟨model, path, cancelled⟩ id) fun findings =>
      ∀ finding ∈ findings, AnchorsOn model id finding := by
  unfold check
  refine ensures_bind fun symbol => ?_
  split
  · exact ensures_nil
  · split
    · exact ensures_nil
    · refine ensures_bind fun property => ?_
      split
      · intro findings answered finding member
        exact .inl (Model.findingAt_singleton _ findings answered finding member)
      · exact findingOn_anchors _

theorem findings_ofCheck {check : Except MissingId (List Finding)} {holds : Finding → Prop}
    (ensures : Ensures check fun findings => ∀ finding ∈ findings, holds finding) :
    ∀ finding ∈ (Outcome.ofCheck check).findings, holds finding := by
  cases check with
  | error missing => simp [Outcome.ofCheck]
  | ok findings => exact ensures findings rfl

namespace Builtin

theorem onNode_anchors (builtin : Builtin) {path : String} {cancelled : Bool}
    (inside : id < model.nodes.size) :
    ∀ finding ∈ (builtin.rule.onNode ⟨model, path, cancelled⟩ id).findings,
      model.Anchors finding := by
  cases builtin with
  | projectStructure organization settings =>
      simp only [rule, ProjectStructure.rule]
      split
      · exact findings_ofCheck (ProjectStructure.check_anchors inside)
      · simp
  | missingCaption => simp [rule, MissingCaption.rule]
  | dataClassification settings => simp [rule, DataClassification.rule]
  | varParameter => exact findings_ofCheck VarParameter.check_anchors
  | setLoadFields threshold => exact findings_ofCheck (SetLoadFields.check_anchors threshold)
  | calcFields => exact findings_ofCheck CalcFields.check_anchors
  | textBuilder => exact findings_ofCheck TextBuilder.check_anchors
  | sourceExpression => exact findings_ofCheck SourceExpression.check_anchors

theorem onSymbol_anchors (builtin : Builtin) {path : String} {cancelled : Bool} {id : SymbolId} :
    ∀ finding ∈ (builtin.rule.onSymbol ⟨model, path, cancelled⟩ id).findings,
      AnchorsOn model id finding := by
  cases builtin with
  | missingCaption => exact findings_ofCheck MissingCaption.check_anchors
  | dataClassification settings => exact findings_ofCheck DataClassification.check_anchors
  | _ => exact fun _ none => absurd none List.not_mem_nil

end Builtin

end Rules

end ModelLint
