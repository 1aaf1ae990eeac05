import ModelLint.Proofs.Rules.SetLoadFields.Events

namespace ModelLint.Rules.SetLoadFields

/-! Which fetches are reported.

A fetch is reported from the history of its record: what was evaluated before it, in
the order in which the body is evaluated. The rule keeps a list of the records for
which fields are chosen; the list agrees with the history at every node. -/

open Fallible

/-- The last change made to a record among some nodes, if there is any, was no choice
of fields. -/
def Unchosen (model : Model) (body : NodeId) (earlier : List NodeId) (record : SymbolId) : Prop :=
  ∀ before last after, earlier = before ++ last :: after →
    Chooses model body last record ∨ Forgets model body last record →
    (∀ later ∈ after, ¬ (Chooses model body later record ∨ Forgets model body later record)) →
    ¬ Chooses model body last record

/-- A node in the order of evaluation is a fetch that has to be reported. -/
def Reported (model : Model) (threshold : Nat) (body : NodeId) (order : List NodeId) (id : NodeId)
    (finding : Finding) : Prop :=
  ∃ earlier later record method node symbol, order = earlier ++ id :: later ∧
    Fetches model body id record method ∧ ¬ Exempt model threshold body record ∧
    Unchosen model body earlier record ∧
    model.nodes[id]? = some node ∧ model.symbols[record]? = some symbol ∧
    finding = { place := .span node.span, args := [symbol.name, method.name], anchor := some id }

variable {model : Model} {body id : NodeId}

/-- The last change made is the one of the last node, if it makes one. -/
theorem unchosen_snoc {earlier : List NodeId} {record : SymbolId} :
    Unchosen model body (earlier ++ [id]) record ↔
      ¬ Chooses model body id record ∧
        (Forgets model body id record ∨ Unchosen model body earlier record) := by
  constructor
  · intro unchosen
    have noChoice : ¬ Chooses model body id record := fun chooses =>
      unchosen earlier id [] rfl (.inl chooses) (by simp) chooses
    refine ⟨noChoice, Classical.or_iff_not_imp_left.mpr fun keeps => ?_⟩
    intro before last after split changes quiet
    refine unchosen before last (after ++ [id]) (by simp [split]) changes ?_
    intro later member
    rcases List.mem_append.mp member with inAfter | isLast
    · exact quiet later inAfter
    · rw [List.mem_singleton.mp isLast]
      exact fun either => either.elim noChoice keeps
  · intro given before last after split changes quiet
    obtain ⟨noChoice, forgotten⟩ := given
    rcases List.eq_nil_or_concat after with rfl | ⟨kept, final, rfl⟩
    · obtain ⟨rfl, rfl⟩ : earlier = before ∧ id = last := by simpa using split
      exact noChoice
    · obtain ⟨same, rfl⟩ : earlier = before ++ last :: kept ∧ id = final := by
        have ends : earlier ++ [id] = (before ++ last :: kept) ++ [final] := by simpa using split
        simpa using List.append_inj' ends rfl
      rcases forgotten with forgets | unchosen
      · exact absurd (.inr forgets) (quiet id (by simp))
      · exact unchosen before last kept same changes fun later member =>
          quiet later (by simp [member])

/-- The records for which fields are chosen are those whose history says so. -/
def Agrees (model : Model) (body : NodeId) (earlier : List NodeId) (chosen : List SymbolId) :
    Prop :=
  ∀ record, record ∈ chosen ↔ ¬ Unchosen model body earlier record

/-- The records for which fields are chosen after a node. -/
def remember (chosen : List SymbolId) : Option Event → List SymbolId
  | some (.choose record) => record :: chosen
  | some (.forget record) => chosen.filter (· ≠ record)
  | some (.fetch _) | none => chosen

def due (exempt : SymbolId → Bool) (chosen : List SymbolId) : Option Event → Option Fetch
  | some (.fetch fetch) =>
      if chosen.contains fetch.record || exempt fetch.record then none else some fetch
  | _ => none

theorem unchosen_step (exempt : SymbolId → Bool) (chosen : List SymbolId) (event : Option Event)
    (events : List Event) :
    unchosen exempt chosen (event.toList ++ events) =
      (due exempt chosen event).toList ++ unchosen exempt (remember chosen event) events := by
  cases event with
  | none => rfl
  | some event =>
      cases event with
      | choose record => rfl
      | forget record => rfl
      | fetch fetch =>
          simp only [Option.toList_some, List.singleton_append, unchosen, due, remember]
          split <;> rfl

theorem Agrees.step {earlier : List NodeId} {chosen : List SymbolId} {found : Option Event}
    (agrees : Agrees model body earlier chosen)
    (exact : ∀ event, found = some event ↔ Happens model body id event) :
    Agrees model body (earlier ++ [id]) (remember chosen found) := by
  intro record
  have chooses_iff : Chooses model body id record ↔ found = some (.choose record) :=
    (exact (.choose record)).symm
  have forgets_iff : Forgets model body id record ↔ found = some (.forget record) :=
    (exact (.forget record)).symm
  have unchosen_iff : Unchosen model body earlier record ↔ record ∉ chosen := by
    rw [agrees record, not_not]
  rw [unchosen_snoc, chooses_iff, forgets_iff, unchosen_iff]
  match found with
  | none => simp [remember]
  | some (.choose added) => simp [remember, eq_comm, or_iff_not_imp_left]
  | some (.forget removed) =>
      have same_iff : some (Event.forget removed) = some (.forget record) ↔ record = removed := by
        simp [eq_comm]
      rw [same_iff, remember, List.mem_filter]
      simp [and_comm]
  | some (.fetch fetch) => simp [remember]

def Due (model : Model) (body : NodeId) (exempt : SymbolId → Bool) (order : List NodeId)
    (id : NodeId) (fetch : Fetch) : Prop :=
  ∃ earlier later, order = earlier ++ id :: later ∧ Happens model body id (.fetch fetch) ∧
    Unchosen model body earlier fetch.record ∧ exempt fetch.record = false

theorem due_iff {exempt : SymbolId → Bool} {earlier later : List NodeId} {chosen : List SymbolId}
    {found : Option Event} {fetch : Fetch} (distinct : (earlier ++ id :: later).Nodup)
    (agrees : Agrees model body earlier chosen)
    (exact : ∀ event, found = some event ↔ Happens model body id event) :
    due exempt chosen found = some fetch ↔
      Due model body exempt (earlier ++ id :: later) id fetch := by
  have unchosen_iff (record : SymbolId) : Unchosen model body earlier record ↔ record ∉ chosen := by
    rw [agrees record, not_not]
  have due_here : Due model body exempt (earlier ++ id :: later) id fetch ↔
      found = some (.fetch fetch) ∧ fetch.record ∉ chosen ∧ exempt fetch.record = false := by
    rw [exact, ← unchosen_iff]
    constructor
    · intro isDue
      obtain ⟨before, after, split, rest⟩ := isDue
      have fresh := List.nodup_middle.mp distinct
      have only : id ∉ earlier ∧ id ∉ later := by
        simpa using (List.nodup_cons.mp fresh).1
      obtain ⟨rfl, _⟩ := (List.append_cons_inj_of_notMem only.1 only.2).mp split
      exact rest
    · intro rest
      exact ⟨earlier, later, rfl, rest⟩
  rw [due_here]
  match found with
  | none => simp [due]
  | some (.choose _) => simp [due]
  | some (.forget _) => simp [due]
  | some (.fetch made) =>
      rw [due, Option.some_inj, Event.fetch.injEq]
      constructor
      · intro isDue
        split at isDue
        · contradiction
        · obtain rfl : made = fetch := by simpa using isDue
          simp_all
      · intro given
        obtain ⟨rfl, notChosen, notExempt⟩ := given
        simp [notChosen, notExempt]

/-- From any point of the order on, with the records chosen by then, what is left to
report is what is due. -/
theorem unchosen_reports (exempt : SymbolId → Bool) {earlier later : List NodeId}
    {chosen : List SymbolId} (agrees : Agrees model body earlier chosen)
    (distinct : (earlier ++ later).Nodup)
    (each : ∀ id ∈ later, Yields (eventsAt model body id) (Happens model body id)) :
    ∃ events, Model.gather (eventsAt model body) later = .ok events ∧
      Reports (Due model body exempt (earlier ++ later)) later (unchosen exempt chosen events) := by
  induction later generalizing earlier chosen with
  | nil => exact ⟨[], rfl, .nil⟩
  | cons id rest ih =>
      obtain ⟨found, here, exact⟩ := each id (by simp)
      obtain ⟨events, gathered, reports⟩ := ih (agrees.step exact) (by simpa using distinct)
        fun other member => each other (List.mem_cons_of_mem _ member)
      refine ⟨found.toList ++ events, ?_, ?_⟩
      · simp only [Model.gather, here, gathered, bind, Except.bind, pure, Except.pure]
      · rw [List.append_assoc, List.singleton_append] at reports
        have dueHere (fetch : Fetch) : due exempt chosen found = some fetch ↔
            Due model body exempt (earlier ++ id :: rest) id fetch := due_iff distinct agrees exact
        rw [unchosen_step]
        cases isDue : due exempt chosen found with
        | none => exact .silent (fun fetch => by simp [← dueHere, isDue]) reports
        | some fetch => exact .reported ((dueHere fetch).mp isDue) reports

theorem Agrees.start : Agrees model body [] [] := by
  intro record
  simp [Unchosen]

theorem fetches_reports (wellFormed : model.WellFormed) {tree : Tree} (fits : tree.Fits model)
    (isBlock : model.Has (·.kind = .block) tree.id = true) (threshold : Nat) :
    ∃ found exempt, fetches model threshold tree.id = .ok found ∧
      (∀ record, exempt record = true ↔ Exempt model threshold tree.id record) ∧
      Reports (Due model tree.id exempt tree.evaluated) tree.evaluated found := by
  have inside := Model.lt_size_of_found fits.found
  obtain ⟨used, usageFound, exempts⟩ := exempts_iff wellFormed inside threshold
  have distinct : tree.evaluated.Nodup :=
    (Tree.evaluated_perm fits).nodup_iff.mpr (wellFormed.preorder_nodup fits)
  obtain ⟨found, gathered, reports⟩ :=
    unchosen_reports (used.exempts threshold) Agrees.start distinct fun id member =>
      eventsAt_yields wellFormed isBlock ((Tree.mem_evaluated_iff fits).mp member)
  refine ⟨_, used.exempts threshold, ?_, exempts, reports⟩
  simp only [fetches, usageFound, bind, Except.bind, pure, Except.pure,
    events_eq_gather fits (wellFormed.preorder_length_le fits), gathered]

theorem finding_eq_ok {fetch : Fetch} (happens : Happens model body id (.fetch fetch)) :
    ∃ found, finding model fetch = .ok [found] ∧ ∃ node symbol,
      model.nodes[fetch.call]? = some node ∧ model.symbols[fetch.record]? = some symbol ∧
      found = {
        place := .span node.span
        args := [symbol.name, fetch.method]
        anchor := some fetch.call } := by
  obtain ⟨rfl, method, ⟨callsOn, _⟩, _⟩ := happens
  obtain ⟨node, found, _⟩ := Model.has_iff.mp callsOn.isInvocation
  obtain ⟨_, _, _, _, _, symbol, known, _⟩ := callsOn
  refine ⟨_, ?_, node, symbol, found, known, rfl⟩
  simp only [finding, Model.symbol_eq_ok known, Model.findingAt, Model.node_eq_ok found, bind,
    Except.bind, pure, Except.pure]

/-- At a procedure of an accepted model the findings are, one for one and in the order
of evaluation, the fetches that have to be reported. -/
theorem onNode_reports_fetches (accepted : model.check = .ok ()) {procedure : NodeId}
    (hasBody : model.HasBody procedure body) (current : ¬ model.InObsoleteObject procedure)
    (threshold : Nat) (path : String) (cancelled : Bool) :
    ∃ (tree : Tree) (findings : List Finding), tree.Fits model ∧ tree.id = body ∧
      tree.evaluated.Nodup ∧ (∀ id, id ∈ tree.evaluated ↔ model.Reaches body id) ∧
      (rule threshold).onNode ⟨model, path, cancelled⟩ procedure = { findings := findings } ∧
      Reports (Reported model threshold body tree.evaluated) tree.evaluated findings := by
  have wellFormed := Model.wellFormed_of_check accepted
  have ⟨_, procedureFound, _⟩ := hasBody
  have inside := Model.lt_size_of_found procedureFound
  obtain ⟨tree, fits, rfl⟩ := wellFormed.treeAt (hasBody.inside wellFormed)
  have reordered := Tree.evaluated_perm fits
  obtain ⟨found, exempt, fetched, exempts, reports⟩ :=
    fetches_reports wellFormed fits hasBody.isBlock threshold
  obtain ⟨findings, gathered, shown⟩ := Model.gather_reports (fun id fetch isDue => by
    obtain ⟨_, _, _, happens, _⟩ := isDue
    exact finding_eq_ok happens) reports
  refine ⟨tree, findings, fits, rfl, reordered.nodup_iff.mpr (wellFormed.preorder_nodup fits),
    fun id => reordered.mem_iff.trans fits.mem_preorder_iff, ?_,
    shown.congr fun id member result => ?_⟩
  · have notObsolete := (Model.inObsoleteObject_decides wellFormed inside).eq_false current
    have bodyFound := (Model.body_finds wellFormed inside).eq_some hasBody
    simp [rule, check, notObsolete, bodyFound, fetched, gathered, bind, Except.bind,
      Outcome.ofCheck]
  · constructor
    · intro given
      obtain ⟨⟨_, record, _⟩, ⟨earlier, later, split, ⟨rfl, method, fetches, rfl⟩, unchosen,
        notExempt⟩, node, symbol, nodeFound, known, rfl⟩ := given
      exact ⟨earlier, later, record, method, node, symbol, split, fetches,
        by simp [← exempts, notExempt], unchosen, nodeFound, known, rfl⟩
    · intro given
      obtain ⟨earlier, later, record, method, node, symbol, split, fetches, notExempt, unchosen,
        nodeFound, known, rfl⟩ := given
      exact ⟨⟨id, record, method.name⟩, ⟨earlier, later, split, ⟨rfl, method, fetches, rfl⟩,
        unchosen, by simpa [← exempts] using notExempt⟩, node, symbol, nodeFound, known, rfl⟩

/-- A procedure that fetches its record with a choice of fields, assigns it and fetches it again:
`Customer.SetLoadFields(); Customer.FindSet(); Customer := Other; Customer.FindSet()`. -/
def refetch : Model where
  filePath := "Fetch.al"
  nodes := #[
    { kind := .compilationUnit, children := [1] },
    { kind := .procedure, parent := some 0, children := [2] },
    { kind := .block, parent := some 1, children := [3, 7, 11, 14] },
    { kind := .invocation, parent := some 2, children := [4] },
    { kind := .memberAccess, parent := some 3, children := [5, 6] },
    { kind := .identifier, parent := some 4, symbol := some 0 },
    { kind := .identifier, parent := some 4, symbol := some 1 },
    { kind := .invocation, span := ⟨4, 5, 60, 18⟩, parent := some 2, children := [8] },
    { kind := .memberAccess, parent := some 7, children := [9, 10] },
    { kind := .identifier, parent := some 8, symbol := some 0 },
    { kind := .identifier, parent := some 8, symbol := some 2 },
    { kind := .assignment, parent := some 2, children := [12, 13] },
    { kind := .identifier, parent := some 11, symbol := some 0 },
    { kind := .identifier, parent := some 11, symbol := some 3 },
    { kind := .invocation, span := ⟨6, 5, 99, 18⟩, parent := some 2, children := [15] },
    { kind := .memberAccess, parent := some 14, children := [16, 17] },
    { kind := .identifier, parent := some 15, symbol := some 0 },
    { kind := .identifier, parent := some 15, symbol := some 2 }]
  symbols := #[
    { name := "Customer", kind := .localVariable, type := .record "Customer" },
    .builtinMethod "SetLoadFields", .builtinMethod "FindSet",
    { name := "Other", kind := .localVariable, type := .record "Customer" }]

/-- Of the two fetches only the one behind the assignment is reported. -/
theorem onNode_reports_fetches_refetch :
    Chooses refetch 2 3 0 ∧ (∃ method, Fetches refetch 2 7 0 method) ∧
    Forgets refetch 2 11 0 ∧ (∃ method, Fetches refetch 2 14 0 method) ∧
    ∃ tree : Tree, tree.Fits refetch ∧ tree.id = 2 ∧
      Reports (Reported refetch 10 2 tree.evaluated) tree.evaluated [
        { place := .span ⟨6, 5, 99, 18⟩, args := ["Customer", "FindSet"], anchor := some 14 }] := by
  have accepted : refetch.check = .ok () := by decide +kernel
  have wellFormed := Model.wellFormed_of_check accepted
  have current : ¬ refetch.InObsoleteObject 1 :=
    (Model.inObsoleteObject_decides wellFormed (by decide)).not_of_eq_false (by decide +kernel)
  have hasBody : refetch.HasBody 1 2 := ⟨_, rfl, by decide⟩
  obtain ⟨tree, findings, fits, same, _, _, answered, reports⟩ :=
    onNode_reports_fetches accepted hasBody current 10 "Fetch.al" false
  have computed : (rule 10).onNode ⟨refetch, "Fetch.al", false⟩ 1 = { findings := [
      { place := .span ⟨6, 5, 99, 18⟩, args := ["Customer", "FindSet"], anchor := some 14 }] } := by
    decide +kernel
  obtain rfl := congrArg Outcome.findings (answered.symm.trans computed)
  have happens {id : NodeId} {event : Event} (lists : refetch.Lists 2 id)
      (event_eq : eventsAt refetch 2 id = .ok [event]) : Happens refetch 2 id event := by
    obtain ⟨found, succeeded, exact⟩ :=
      (eventsAt_yields wellFormed hasBody.isBlock (.single lists)).collects
    obtain rfl := Except.ok.inj (succeeded.symm.trans event_eq)
    exact (exact event).mp (by simp)
  have block : refetch.nodes[2]? = some
      { kind := .block, parent := some 1, children := [3, 7, 11, 14] } := rfl
  have chooses : Happens refetch 2 3 (.choose 0) :=
    happens ⟨_, block, by decide⟩ (by decide +kernel)
  have forgets : Happens refetch 2 11 (.forget 0) :=
    happens ⟨_, block, by decide⟩ (by decide +kernel)
  obtain ⟨_, first, fetches, _⟩ : Happens refetch 2 7 (.fetch ⟨7, 0, "FindSet"⟩) :=
    happens ⟨_, block, by decide⟩ (by decide +kernel)
  obtain ⟨_, second, fetchesAgain, _⟩ : Happens refetch 2 14 (.fetch ⟨14, 0, "FindSet"⟩) :=
    happens ⟨_, block, by decide⟩ (by decide +kernel)
  exact ⟨chooses, ⟨first, fetches⟩, forgets, ⟨second, fetchesAgain⟩, tree, fits, same, reports⟩

end ModelLint.Rules.SetLoadFields
