import ModelLint.Proofs.Rules.Calls
import ModelLint.Rules.SetLoadFields

namespace ModelLint.Rules.SetLoadFields

/-! Which records may be fetched with all their fields.

The exemption of a record is stated over the nodes that the body encloses, without
an order: the record takes part in a transfer of all its fields somewhere in the
body, or more distinct fields of it than the threshold are used there. -/

open Fallible

/-- An expression stands for a record variable that is not temporary. -/
def Tracks (model : Model) (expression : NodeId) (record : SymbolId) : Prop :=
  model.Resolves expression record ∧ ∃ symbol, model.symbols[record]? = some symbol ∧
    symbol.isRecordVariable = true ∧ symbol.type.temporary = false

/-- The receiver of a call is the one in front of the dot, or else the target of the
innermost `with` statement of the body. -/
def Receives (model : Model) (body invocation : NodeId) (call : Model.Call) (receiver : NodeId) :
    Prop :=
  call.receiver = some receiver ∨
    call.receiver = none ∧ model.WithTarget body invocation receiver

def Invokes (model : Model) (invocation : NodeId) (call : Model.Call) (method : Symbol) : Prop :=
  model.Has (·.kind = .invocation) invocation = true ∧ model.Calls invocation call method ∧
    method.builtin = true

/-- An invocation copies a record whole, as its receiver or an argument. -/
def Transfers (model : Model) (body invocation : NodeId) (record : SymbolId) : Prop :=
  ∃ call method, Invokes model invocation call method ∧
    Text.sameIgnoringCase method.name "TransferFields" = true ∧
    ((∃ receiver, Receives model body invocation call receiver ∧ Tracks model receiver record) ∨
      ∃ position argument, model.ChildAt invocation (position + 1) argument ∧
        Tracks model argument record)

def RefersToField (model : Model) (id : NodeId) (field : SymbolId) : Prop :=
  model.Resolves id field ∧ ∃ symbol, model.symbols[field]? = some symbol ∧ symbol.kind = .field

def IsMember (model : Model) (id : NodeId) : Prop :=
  ∃ access, model.Has (·.kind = .memberAccess) access = true ∧ model.ChildAt access 1 id

/-- A node uses a field of a record: as a member of the record, or by its bare name
inside a `with` statement for the record. -/
inductive UsesField (model : Model) (body id : NodeId) : FieldUse → Prop where
  | access {record field : SymbolId} {receiver member : NodeId}
      (isAccess : model.Has (·.kind = .memberAccess) id = true)
      (first : model.ChildAt id 0 receiver) (second : model.ChildAt id 1 member)
      (tracks : Tracks model receiver record) (refers : RefersToField model member field) :
      UsesField model body id (record, field)
  | bare {record field : SymbolId} {target : NodeId}
      (isName : model.Has (·.kind = .identifier) id = true) (alone : ¬ IsMember model id)
      (refers : RefersToField model id field) (scope : model.WithTarget body id target)
      (tracks : Tracks model target record) :
      UsesField model body id (record, field)

def Exempt (model : Model) (threshold : Nat) (body : NodeId) (record : SymbolId) : Prop :=
  (∃ invocation, model.Encloses body invocation ∧ Transfers model body invocation record) ∨
  ∃ fields : List SymbolId, fields.Nodup ∧ threshold < fields.length ∧
    ∀ field ∈ fields, ∃ id, model.Encloses body id ∧ UsesField model body id (record, field)

variable {model : Model} {body id : NodeId}

theorem ifTracked_finds {record : SymbolId} (inside : record < model.symbols.size) :
    Finds (do
        let symbol ← model.symbol record
        return if symbol.isRecordVariable && !symbol.type.temporary then some record else none)
      fun found => found = record ∧ ∃ symbol, model.symbols[record]? = some symbol ∧
        symbol.isRecordVariable = true ∧ symbol.type.temporary = false := by
  obtain ⟨symbol, known⟩ := Model.symbol_of_lt_size inside
  simp only [Model.symbol_eq_ok known, bind, Except.bind, pure, Except.pure]
  by_cases tracked : symbol.isRecordVariable = true ∧ symbol.type.temporary = false
  · simp only [tracked, Bool.not_false, Bool.and_self, if_true]
    exact finds_some ⟨rfl, symbol, known, tracked⟩ fun other fits => fits.1
  · have untracked : (symbol.isRecordVariable && !symbol.type.temporary) = false := by
      cases isRecord : symbol.isRecordVariable <;> cases isTemporary : symbol.type.temporary <;>
        simp_all
    simp only [untracked, Bool.false_eq_true, if_false]
    refine finds_none fun other given => ?_
    obtain ⟨_, again, otherKnown, fits⟩ := given
    obtain rfl : symbol = again := by simpa [known] using otherKnown
    exact tracked fits

theorem trackedRecord_finds (wellFormed : model.WellFormed) (inside : id < model.nodes.size) :
    Finds (trackedRecord model id) (Tracks model id) := by
  unfold trackedRecord
  refine Finds.congr (Finds.andThen (Model.resolvedId_finds inside) rfl fun record resolves =>
    ifTracked_finds (resolves.inside wellFormed)) fun record => ?_
  constructor
  · intro given
    obtain ⟨_, resolves, rfl, tracked⟩ := given
    exact ⟨resolves, tracked⟩
  · intro tracks
    exact ⟨record, tracks.1, rfl, tracks.2⟩

theorem receiver_finds (wellFormed : model.WellFormed) (encloses : model.Encloses body id)
    (inside : id < model.nodes.size) (call : Model.Call) :
    Finds (receiver model body id call) (Receives model body id call) := by
  cases explicit : call.receiver with
  | some target =>
      simp only [receiver, explicit, pure, Except.pure]
      exact finds_some (.inl explicit) fun other fits => by
        simpa [Receives, explicit, eq_comm] using fits
  | none =>
      simp only [receiver, explicit]
      exact (Model.withTarget_finds wellFormed inside encloses).congr fun target => by
        simp [Receives, explicit]

theorem Receives.inside (wellFormed : model.WellFormed) {call : Model.Call} {method : Symbol}
    {receiver : NodeId} (calls : model.Calls id call method)
    (receives : Receives model body id call receiver) : receiver < model.nodes.size := by
  rcases receives with explicit | ⟨_, scope⟩
  · obtain ⟨callee, name, _, parts, _⟩ := calls
    rw [explicit] at parts
    cases parts with
    | member found _ parts =>
        exact Model.closed_of_linked wellFormed.linked _ _ ⟨_, found, by rw [parts]; simp⟩
  · exact scope.inside wellFormed

theorem receivedRecord_finds (wellFormed : model.WellFormed) (encloses : model.Encloses body id)
    (inside : id < model.nodes.size) {call : Model.Call} {method : Symbol}
    (calls : model.Calls id call method) :
    Finds (do trackedReceiver model (← receiver model body id call)) fun record =>
      ∃ receiver, Receives model body id call receiver ∧ Tracks model receiver record :=
  Finds.andThen (receiver_finds wellFormed encloses inside call) rfl fun _ receives =>
    trackedRecord_finds wellFormed (receives.inside wellFormed calls)

theorem argument_iff {node : Node} (found : model.nodes[id]? = some node) {argument : NodeId} :
    argument ∈ node.children.tail ↔ ∃ position, model.ChildAt id (position + 1) argument := by
  simp [List.mem_iff_getElem?, Model.ChildAt, found]

theorem sources_collects (wellFormed : model.WellFormed) {node : Node}
    (found : model.nodes[id]? = some node) :
    Collects (Model.gather (fun argument => return (← trackedRecord model argument).toList)
        node.children.tail) fun record =>
      ∃ argument ∈ node.children.tail, Tracks model argument record := by
  apply Model.gather_collects
  intro argument member
  have inside : argument < model.nodes.size :=
    Model.closed_of_linked wellFormed.linked id argument ⟨node, found, List.mem_of_mem_tail member⟩
  obtain ⟨tracked, succeeded, exact⟩ := trackedRecord_finds wellFormed inside
  refine ⟨tracked.toList, ?_, fun record => ?_⟩
  · simp only [succeeded, bind, Except.bind, pure, Except.pure]
  · rw [Option.mem_toList]
    exact exact record

theorem Invokes.unique (wellFormed : model.WellFormed) {call otherCall : Model.Call}
    {method otherMethod : Symbol} (first : Invokes model id call method)
    (second : Invokes model id otherCall otherMethod) :
    otherCall = call ∧ otherMethod = method := by
  obtain ⟨_, found, _⟩ := Model.has_iff.mp first.1
  have finds := Model.builtinCall_finds wellFormed (Model.lt_size_of_found found)
  have isFirst : model.builtinCall id = .ok (some (call, method)) := finds.eq_some first.2
  have isSecond : model.builtinCall id = .ok (some (otherCall, otherMethod)) :=
    finds.eq_some second.2
  simpa [isFirst, eq_comm] using isSecond

/-- The records that take part in a call, as its receiver or an argument. -/
theorem participants_collects (wellFormed : model.WellFormed) (encloses : model.Encloses body id)
    {node : Node} (found : model.nodes[id]? = some node) {call : Model.Call} {method : Symbol}
    (calls : model.Calls id call method) :
    Collects (do
        let target ← trackedReceiver model (← receiver model body id call)
        let sources ← Model.gather
          (fun argument => return (← trackedRecord model argument).toList) node.children.tail
        return target.toList ++ sources)
      fun record =>
        (∃ receiver, Receives model body id call receiver ∧ Tracks model receiver record) ∨
          ∃ position argument, model.ChildAt id (position + 1) argument ∧
            Tracks model argument record := by
  obtain ⟨target, targetFound, targetExact⟩ :=
    receivedRecord_finds wellFormed encloses (Model.lt_size_of_found found) calls
  obtain ⟨sources, sourcesFound, sourcesExact⟩ := sources_collects wellFormed found
  obtain ⟨received, receiverFound, trackedFound⟩ := bind_eq_ok.mp targetFound
  refine ⟨target.toList ++ sources, ?_, fun record => ?_⟩
  · exact bind_eq_ok.mpr ⟨received, receiverFound, bind_eq_ok.mpr ⟨target, trackedFound,
      bind_eq_ok.mpr ⟨sources, sourcesFound, rfl⟩⟩⟩
  · rw [List.mem_append, Option.mem_toList, targetExact, sourcesExact]
    refine or_congr .rfl ?_
    simp only [argument_iff found]
    constructor
    · intro given
      obtain ⟨argument, ⟨position, childAt⟩, tracks⟩ := given
      exact ⟨position, argument, childAt, tracks⟩
    · intro given
      obtain ⟨position, argument, childAt, tracks⟩ := given
      exact ⟨argument, ⟨position, childAt⟩, tracks⟩

theorem transferredAt_collects (wellFormed : model.WellFormed) (encloses : model.Encloses body id)
    (inside : id < model.nodes.size) :
    Collects (transferredAt model body id) (Transfers model body id) := by
  obtain ⟨node, found⟩ := Model.found_of_lt_size inside
  simp only [transferredAt, Model.node_eq_ok found, bind, Except.bind, pure, Except.pure]
  by_cases invocation : node.kind = .invocation
  · simp only [invocation, ne_eq, not_true_eq_false, if_false]
    rcases (Model.builtinCall_finds wellFormed inside).cases with
      ⟨none, absent⟩ | ⟨⟨call, method⟩, some, isCall, _⟩
    · simp only [none]
      refine collects_nil fun record transfers => ?_
      obtain ⟨call, method, ⟨_, isCall⟩, _⟩ := transfers
      exact absent (call, method) isCall
    · have invokes : Invokes model id call method :=
        ⟨(Model.has_kind_iff found).mpr invocation, isCall⟩
      simp only [some]
      by_cases transfer : Text.sameIgnoringCase method.name "TransferFields" = true
      · simp only [transfer, Bool.not_true, Bool.false_eq_true, if_false]
        obtain ⟨records, succeeded, exact⟩ :=
          participants_collects wellFormed encloses found isCall.1
        refine ⟨records, succeeded, fun record => ?_⟩
        rw [exact]
        constructor
        · intro takesPart
          exact ⟨call, method, invokes, transfer, takesPart⟩
        · intro transfers
          obtain ⟨otherCall, otherMethod, otherInvokes, _, takesPart⟩ := transfers
          obtain ⟨rfl, rfl⟩ := invokes.unique wellFormed otherInvokes
          exact takesPart
      · simp only [transfer, Bool.not_false, if_true]
        refine collects_nil fun record transfers => ?_
        obtain ⟨otherCall, otherMethod, otherInvokes, isTransfer, _⟩ := transfers
        obtain ⟨rfl, rfl⟩ := invokes.unique wellFormed otherInvokes
        exact transfer isTransfer
  · simp only [invocation, ne_eq, not_false_eq_true, if_true]
    refine collects_nil fun record transfers => ?_
    obtain ⟨call, method, invokes, _⟩ := transfers
    exact invocation ((Model.has_kind_iff found).mp invokes.1)

theorem ifField_finds {symbol : SymbolId} (inside : symbol < model.symbols.size) :
    Finds (do return if (← model.symbol symbol).kind = .field then some symbol else none)
      fun found => found = symbol ∧ ∃ field, model.symbols[symbol]? = some field ∧
        field.kind = .field := by
  obtain ⟨field, known⟩ := Model.symbol_of_lt_size inside
  simp only [Model.symbol_eq_ok known, bind, Except.bind, pure, Except.pure]
  by_cases isField : field.kind = .field
  · simp only [isField, if_true]
    exact finds_some ⟨rfl, field, known, isField⟩ fun other fits => fits.1
  · simp only [isField, if_false]
    refine finds_none fun other fits => ?_
    obtain ⟨_, again, otherKnown, otherIsField⟩ := fits
    obtain rfl : field = again := by simpa [known] using otherKnown
    exact isField otherIsField

theorem fieldSymbol_finds (wellFormed : model.WellFormed) (inside : id < model.nodes.size) :
    Finds (fieldSymbol model id) (RefersToField model id) := by
  unfold fieldSymbol
  refine Finds.congr (Finds.andThen (Model.resolvedId_finds inside) rfl fun symbol resolves =>
    ifField_finds (resolves.inside wellFormed)) fun field => ?_
  constructor
  · intro found
    obtain ⟨symbol, resolves, rfl, isField⟩ := found
    exact ⟨resolves, isField⟩
  · intro refers
    exact ⟨field, refers.1, rfl, refers.2⟩

theorem isMemberName_decides (wellFormed : model.WellFormed) (inside : id < model.nodes.size) :
    Decides (isMemberName model id) (IsMember model id) := by
  obtain ⟨node, found⟩ := Model.found_of_lt_size inside
  simp only [isMemberName, Model.parent_eq_ok found, bind, Except.bind, pure, Except.pure]
  have parentOf {access : NodeId} (childAt : model.ChildAt access 1 id) :
      node.parent = some access := by
    obtain ⟨holder, holderFound, second⟩ := childAt
    obtain ⟨again, againFound, link⟩ := wellFormed.linked access id
      ⟨holder, holderFound, List.mem_of_getElem? second⟩
    obtain rfl : node = again := by simpa [found] using againFound
    exact link
  cases link : node.parent with
  | none =>
      refine ⟨false, rfl, ?_⟩
      simp only [Bool.false_eq_true, false_iff]
      intro isMember
      obtain ⟨access, _, childAt⟩ := isMember
      simp [parentOf childAt] at link
  | some parent =>
      obtain ⟨holder, holderFound⟩ :=
        Model.found_of_lt_size (Model.lists_of_parent wellFormed found link).inside
      simp only [Model.node_eq_ok holderFound]
      refine ⟨_, rfl, ?_⟩
      simp only [Bool.and_eq_true, decide_eq_true_eq]
      constructor
      · intro member
        exact ⟨parent, by simp [Model.Has, holderFound, member.1], holder, holderFound, member.2⟩
      · intro isMember
        obtain ⟨access, isAccess, childAt⟩ := isMember
        obtain rfl : parent = access := by simpa [link] using parentOf childAt
        obtain ⟨again, againFound, second⟩ := childAt
        obtain rfl : holder = again := by simpa [holderFound] using againFound
        exact ⟨by simpa [Model.Has, holderFound] using isAccess, second⟩

theorem pair_collects (record field : Option SymbolId) :
    Collects (match record, field with
      | some record, some field => (.ok [(record, field)] : Except MissingId (List FieldUse))
      | _, _ => .ok []) fun use => record = some use.1 ∧ field = some use.2 := by
  cases record with
  | none => exact collects_nil fun use fits => by simp at fits
  | some record =>
      cases field with
      | none => exact collects_nil fun use fits => by simp at fits
      | some field =>
          refine collects_singleton ⟨rfl, rfl⟩ fun use fits => ?_
          simp only [Option.some.injEq] at fits
          exact Prod.ext fits.1.symm fits.2.symm

theorem accessUse_collects (wellFormed : model.WellFormed) {node : Node}
    {receiver member : NodeId} {others : List NodeId} (found : model.nodes[id]? = some node)
    (isAccess : node.kind = .memberAccess) (parts : node.children = receiver :: member :: others) :
    Collects (fieldUseAt model body id) (UsesField model body id) := by
  have inside {child : NodeId} (isChild : child ∈ node.children) : child < model.nodes.size :=
    Model.closed_of_linked wellFormed.linked id child ⟨node, found, isChild⟩
  obtain ⟨record, recordFound, recordExact⟩ :=
    trackedRecord_finds wellFormed (inside (by simp [parts] : receiver ∈ node.children))
  obtain ⟨field, fieldFound, fieldExact⟩ :=
    fieldSymbol_finds wellFormed (inside (by simp [parts] : member ∈ node.children))
  simp only [fieldUseAt, Model.node_eq_ok found, isAccess, parts, recordFound, fieldFound, bind,
    Except.bind, pure, Except.pure]
  obtain ⟨uses, succeeded, exact⟩ := pair_collects record field
  refine ⟨uses, succeeded, fun use => ?_⟩
  simp only [exact, recordExact, fieldExact]
  constructor
  · intro fits
    exact .access (by simp [Model.Has, found, isAccess]) ⟨node, found, by simp [parts]⟩
      ⟨node, found, by simp [parts]⟩ fits.1 fits.2
  · intro uses
    cases uses with
    | access _ first second tracks refers =>
        obtain rfl : receiver = _ := by simpa [Model.ChildAt, found, parts] using first
        obtain rfl : member = _ := by simpa [Model.ChildAt, found, parts] using second
        exact ⟨tracks, refers⟩
    | bare isName => simp [Model.Has, found, isAccess] at isName

theorem bareUse_collects (wellFormed : model.WellFormed) (encloses : model.Encloses body id)
    {node : Node} (found : model.nodes[id]? = some node) (isName : node.kind = .identifier) :
    Collects (fieldUseAt model body id) (UsesField model body id) := by
  have inside := Model.lt_size_of_found found
  have bareOnly {use : FieldUse} (uses : UsesField model body id use) :
      ¬ IsMember model id ∧ RefersToField model id use.2 ∧
        ∃ target, model.WithTarget body id target ∧ Tracks model target use.1 := by
    cases uses with
    | access isAccess => simp [Model.Has, found, isName] at isAccess
    | bare _ alone refers scope tracks => exact ⟨alone, refers, _, scope, tracks⟩
  obtain ⟨flag, answered, isMember⟩ := isMemberName_decides wellFormed inside
  simp only [fieldUseAt, Model.node_eq_ok found, isName, answered, bind, Except.bind, pure,
    Except.pure]
  cases flag with
  | true =>
      simp only [if_true]
      exact collects_nil fun use uses => (bareOnly uses).1 (isMember.mp rfl)
  | false =>
      have alone : ¬ IsMember model id := fun member => by simpa using isMember.mpr member
      simp only [Bool.false_eq_true, if_false]
      rcases (fieldSymbol_finds wellFormed inside).cases with
        ⟨none, absent⟩ | ⟨field, some, refers, unique⟩
      · simp only [none]
        exact collects_nil fun use uses => absent use.2 (bareOnly uses).2.1
      · obtain ⟨record, recordFound, recordExact⟩ :=
          Finds.andThen (Model.withTarget_finds wellFormed inside encloses)
            (rfl : trackedReceiver model .none = .ok .none) fun target scope =>
              trackedRecord_finds wellFormed (scope.inside wellFormed)
        obtain ⟨target, targetFound, trackedFound⟩ := bind_eq_ok.mp recordFound
        simp only [some, targetFound, trackedFound]
        obtain ⟨uses, succeeded, exact⟩ := pair_collects record (.some field)
        refine ⟨uses, succeeded, fun use => ?_⟩
        simp only [exact, recordExact]
        constructor
        · intro fits
          obtain ⟨⟨target, scope, tracks⟩, same⟩ := fits
          obtain rfl : field = use.2 := by simpa using same
          exact .bare (by simp [Model.Has, found, isName]) alone refers scope tracks
        · intro uses
          obtain ⟨_, refersOther, target⟩ := bareOnly uses
          exact ⟨target, by rw [unique use.2 refersOther]⟩

theorem fieldUseAt_collects (wellFormed : model.WellFormed) (encloses : model.Encloses body id)
    (inside : id < model.nodes.size) :
    Collects (fieldUseAt model body id) (UsesField model body id) := by
  obtain ⟨node, found⟩ := Model.found_of_lt_size inside
  by_cases isName : node.kind = .identifier
  · exact bareUse_collects wellFormed encloses found isName
  · by_cases isAccess : node.kind = .memberAccess ∧ 2 ≤ node.children.length
    · obtain ⟨receiver, member, others, parts⟩ : ∃ receiver member others,
          node.children = receiver :: member :: others := by
        match listed : node.children, isAccess.2 with
        | receiver :: member :: others, _ => exact ⟨receiver, member, others, rfl⟩
      exact accessUse_collects wellFormed found isAccess.1 parts
    · simp only [fieldUseAt, Model.node_eq_ok found, bind, Except.bind, pure, Except.pure]
      split
      · rename_i kind parts
        exact absurd ⟨kind, by simp [parts]⟩ isAccess
      · contradiction
      · refine collects_nil fun use uses => ?_
        cases uses with
        | access isMemberAccess first second =>
            obtain ⟨again, againFound, listed⟩ := second
            obtain rfl : node = again := by simpa [found] using againFound
            have room := (List.getElem?_eq_some_iff.mp listed).1
            exact isAccess ⟨by simpa [Model.Has, found] using isMemberAccess, room⟩
        | bare isIdentifier => exact isName (by simpa [Model.Has, found] using isIdentifier)

theorem usage_eq_ok (wellFormed : model.WellFormed) (inside : body < model.nodes.size) :
    ∃ found, usage model body = .ok found ∧
      (∀ record, record ∈ found.transferred ↔
        ∃ id, model.Encloses body id ∧ Transfers model body id record) ∧
      ∀ use, use ∈ found.fields ↔ ∃ id, model.Encloses body id ∧ UsesField model body id use := by
  obtain ⟨tree, fits, rfl⟩ := wellFormed.treeAt inside
  obtain ⟨transferred, transfersFound, transfersExact⟩ := wellFormed.enclosed_collects fits
    fun id encloses within => transferredAt_collects wellFormed encloses within
  obtain ⟨fields, fieldsFound, fieldsExact⟩ := wellFormed.enclosed_collects fits
    fun id encloses within => fieldUseAt_collects wellFormed encloses within
  refine ⟨⟨transferred, fields⟩, ?_, transfersExact, fieldsExact⟩
  simp only [usage, wellFormed.descendants_eq_ok fits, transfersFound, fieldsFound, bind,
    Except.bind, pure, Except.pure]

theorem nodup_eraseDups (symbols : List SymbolId) : symbols.eraseDups.Nodup := by
  induction bound : symbols.length using Nat.strongRecOn generalizing symbols with
  | ind size ih =>
      cases symbols with
      | nil => simp
      | cons first rest =>
          have shorter : (rest.filter fun other => !other == first).length < size := by
            have := List.length_filter_le (fun other => !other == first) rest
            simp only [List.length_cons] at bound
            omega
          rw [List.eraseDups_cons, List.nodup_cons]
          exact ⟨by simp [List.mem_eraseDups], ih _ shorter _ rfl⟩

/-- There are more distinct values than a bound if a list of them is longer. -/
theorem lt_length_eraseDups {threshold : Nat} {symbols : List SymbolId} :
    threshold < symbols.eraseDups.length ↔
      ∃ distinct : List SymbolId, distinct.Nodup ∧ threshold < distinct.length ∧
        ∀ symbol ∈ distinct, symbol ∈ symbols := by
  constructor
  · intro longer
    exact ⟨symbols.eraseDups, nodup_eraseDups symbols, longer, fun symbol member =>
      List.mem_eraseDups.mp member⟩
  · intro given
    obtain ⟨distinct, nodup, longer, members⟩ := given
    have bound := (nodup.subperm fun symbol member =>
      List.mem_eraseDups.mpr (members symbol member)).length_le
    omega

theorem exempts_iff (wellFormed : model.WellFormed) (inside : body < model.nodes.size)
    (threshold : Nat) :
    ∃ found, usage model body = .ok found ∧
      ∀ record, found.exempts threshold record = true ↔ Exempt model threshold body record := by
  obtain ⟨found, succeeded, transfers, fields⟩ := usage_eq_ok wellFormed inside
  refine ⟨found, succeeded, fun record => ?_⟩
  have used (field : SymbolId) :
      field ∈ (found.fields.filter (·.1 = record)).map (·.2) ↔
        ∃ id, model.Encloses body id ∧ UsesField model body id (record, field) := by
    rw [← fields, List.mem_map]
    constructor
    · intro given
      obtain ⟨⟨other, _⟩, selected, rfl⟩ := given
      have ⟨member, same⟩ := List.mem_filter.mp selected
      obtain rfl : other = record := by simpa using same
      exact member
    · intro member
      exact ⟨(record, field), List.mem_filter.mpr ⟨member, by simp⟩, rfl⟩
  rw [Usage.exempts, Usage.fieldsOf, Bool.or_eq_true, List.contains_iff_mem, decide_eq_true_iff,
    transfers, lt_length_eraseDups]
  simp only [used, Exempt]

end ModelLint.Rules.SetLoadFields
