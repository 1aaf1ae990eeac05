import ModelLint.Proofs.Rules.Calls
import ModelLint.Rules.SourceExpression

namespace ModelLint.Rules.SourceExpression

/-! Which globals a trigger computes.

The globals are stated over the blocks that calls within the object lead to, without
a worklist. The search follows each procedure once; its invariant ties the procedures
that have been met to the blocks that are done or still pending, and the procedures
not met yet bound the steps. -/

open Fallible

/-- A method of the object that is not a platform method, with the block that its
declaration has as a body. -/
def IsProcedure (model : Model) (object : SymbolId) (procedure : Procedure) : Prop :=
  ∃ method declaration, model.symbols[procedure.method]? = some method ∧
    method.builtin = false ∧ method.container = some object ∧
    method.declaration = some declaration ∧ model.HasBody declaration procedure.body

def CallsProcedure (model : Model) (object : SymbolId) (id : NodeId) (procedure : Procedure) :
    Prop :=
  model.Has (·.kind = .invocation) id = true ∧
    (∃ call method, model.Calls id call method ∧ call.method = procedure.method) ∧
    IsProcedure model object procedure

def Follows (model : Model) (object : SymbolId) (block : NodeId) (procedure : Procedure) : Prop :=
  ∃ id, model.Encloses block id ∧ CallsProcedure model object id procedure

/-- Calls within the object, of which there may be none, lead from one block to another. -/
def LeadsTo (model : Model) (object : SymbolId) : NodeId → NodeId → Prop :=
  Relation.ReflTransGen fun block next => ∃ method, Follows model object block ⟨method, next⟩

def IsGlobal (model : Model) (object global : SymbolId) : Prop :=
  ∃ symbol, model.symbols[global]? = some symbol ∧ symbol.kind = .globalVariable ∧
    symbol.container = some object

/-- A plain or a compound assignment to the name of a symbol. -/
def AssignsName (model : Model) (id : NodeId) (symbol : SymbolId) : Prop :=
  (model.Has (·.kind = .assignment) id = true ∨
    model.Has (·.kind = .compoundAssignment) id = true) ∧
  ∃ target, model.ChildAt id 0 target ∧ model.Names target symbol

/-- The trigger body, or a block that it leads to, assigns the global. -/
def Computed (model : Model) (object : SymbolId) (body : NodeId) (global : SymbolId) : Prop :=
  IsGlobal model object global ∧ ∃ block id, LeadsTo model object body block ∧
    model.Encloses block id ∧ AssignsName model id global

variable {model : Model} {object : SymbolId} {id body : NodeId}

theorem mem_globals (model : Model) (object global : SymbolId) :
    global ∈ ((model.membersOf object).filter (·.2.kind = .globalVariable)).map (·.1) ↔
      IsGlobal model object global := by
  simp only [List.mem_map, List.mem_filter, Model.membersOf, List.mem_filterMap, IsGlobal,
    Prod.exists, List.mem_zipIdx_iff_getElem?, Array.getElem?_toList]
  constructor
  · intro given
    obtain ⟨other, symbol, ⟨⟨listed, position, found, selected⟩, isGlobal⟩, rfl⟩ := given
    split at selected
    · rename_i inside
      obtain ⟨rfl, rfl⟩ : position = other ∧ listed = symbol := by simpa using selected
      exact ⟨listed, found, by simpa using isGlobal, inside⟩
    · contradiction
  · intro given
    obtain ⟨symbol, found, isGlobal, inside⟩ := given
    exact ⟨global, symbol,
      ⟨⟨symbol, global, found, by simp [inside]⟩, by simpa using isGlobal⟩, rfl⟩

theorem assignedAt_yields (wellFormed : model.WellFormed) (globals : List SymbolId)
    (inside : id < model.nodes.size) :
    Yields (assignedAt model globals id) fun global =>
      global ∈ globals ∧ AssignsName model id global := by
  obtain ⟨node, found⟩ := Model.found_of_lt_size inside
  have assigns {target : NodeId} {sources : List NodeId} (parts : node.children = target :: sources)
      (isAssignment : node.kind = .assignment ∨ node.kind = .compoundAssignment)
      {global : SymbolId} : AssignsName model id global ↔ model.Names target global := by
    simp [AssignsName, Model.Has, Model.ChildAt, found, parts, isAssignment]
  have targetOf {target : NodeId} {sources : List NodeId}
      (parts : node.children = target :: sources)
      (isAssignment : node.kind = .assignment ∨ node.kind = .compoundAssignment) :
      Yields (do return ((← model.identifierSymbol target).filter globals.contains).toList)
        fun global => global ∈ globals ∧ AssignsName model id global := by
    have childAt : model.ChildAt id 0 target := ⟨node, found, by simp [parts]⟩
    obtain ⟨symbol, answered, exact⟩ := Model.identifierSymbol_finds (childAt.inside wellFormed)
    refine ⟨symbol.filter globals.contains, ?_, fun global => ?_⟩
    · simp only [answered, bind, Except.bind, pure, Except.pure]
    · change _ ↔ global ∈ globals ∧ AssignsName model id global
      rw [assigns parts isAssignment, ← exact, Option.filter_eq_some_iff, List.contains_iff_mem,
        and_comm]
  simp only [assignedAt, Model.node_eq_ok found, bind, Except.bind]
  split
  · exact targetOf ‹_› (.inl ‹_›)
  · exact targetOf ‹_› (.inr ‹_›)
  · rename_i noAssignment noCompound
    refine yields_nothing fun global given => ?_
    obtain ⟨_, isAssignment, target, first, _⟩ := given
    obtain ⟨sources, parts⟩ := first.first found
    simp only [Model.Has, found, Option.any_some, decide_eq_true_eq] at isAssignment
    rcases isAssignment with plain | compound
    · exact noAssignment target sources plain parts
    · exact noCompound target sources compound parts

theorem IsProcedure.unique {left right : Procedure} (first : IsProcedure model object left)
    (second : IsProcedure model object right) (same : left.method = right.method) :
    left = right := by
  obtain ⟨method, declaration, known, _, _, declared, hasBody⟩ := first
  obtain ⟨again, otherDeclaration, againKnown, _, _, otherDeclared, otherHasBody⟩ := second
  obtain rfl : method = again := by simpa [← same, known] using againKnown
  obtain rfl : declaration = otherDeclaration := by simpa [declared] using otherDeclared
  cases left
  cases right
  simpa using ⟨same, hasBody.unique otherHasBody⟩

theorem IsProcedure.inside (wellFormed : model.WellFormed) {procedure : Procedure}
    (isProcedure : IsProcedure model object procedure) :
    procedure.method < model.symbols.size ∧ procedure.body < model.nodes.size := by
  obtain ⟨method, declaration, known, _, _, _, hasBody⟩ := isProcedure
  exact ⟨(Array.getElem?_eq_some_iff.mp known).1, hasBody.inside wellFormed⟩

theorem procedureOf_yields (wellFormed : model.WellFormed) (object : SymbolId) {id : SymbolId}
    {method : Symbol}
    (known : model.symbols[id]? = some method) :
    Yields (do
        if method.builtin || method.container ≠ some object then return []
        let some declaration := method.declaration | return []
        let some body ← model.body declaration | return []
        return [(⟨id, body⟩ : Procedure)])
      fun procedure => procedure.method = id ∧ IsProcedure model object procedure := by
  have same {procedure : Procedure} (isSame : procedure.method = id)
      (isProcedure : IsProcedure model object procedure) :
      method.builtin = false ∧ method.container = some object ∧
        ∃ declaration, method.declaration = some declaration ∧
          model.HasBody declaration procedure.body := by
    obtain ⟨again, declaration, againKnown, rest⟩ := isProcedure
    obtain rfl : method = again := by simpa [isSame, known] using againKnown
    exact ⟨rest.1, rest.2.1, declaration, rest.2.2⟩
  by_cases own : method.builtin = false ∧ method.container = some object
  · simp only [own, Bool.false_or, ne_eq, not_true_eq_false, decide_false, Bool.false_eq_true,
      if_false]
    cases declared : method.declaration with
    | none =>
        refine yields_nothing fun procedure given => ?_
        obtain ⟨_, _, declaration, isDeclared, _⟩ := same given.1 given.2
        simp [declared] at isDeclared
    | some declaration =>
        have bodyOf {procedure : Procedure} (isSame : procedure.method = id)
            (isProcedure : IsProcedure model object procedure) :
            model.HasBody declaration procedure.body := by
          obtain ⟨_, _, other, otherDeclared, hasBody⟩ := same isSame isProcedure
          obtain rfl : declaration = other := by simpa [declared] using otherDeclared
          exact hasBody
        have inside := wellFormed.declarations id method known declaration declared
        rcases (Model.body_finds wellFormed inside).cases with
          ⟨none, absent⟩ | ⟨body, some, hasBody, _⟩
        · simp only [none, bind, Except.bind]
          exact yields_nothing fun procedure given => absent procedure.body (bodyOf given.1 given.2)
        · have isProcedure : IsProcedure model object ⟨id, body⟩ :=
            ⟨method, declaration, known, own.1, own.2, declared, hasBody⟩
          simp only [some, bind, Except.bind]
          exact yields_one ⟨rfl, isProcedure⟩ fun other given =>
            given.2.unique isProcedure given.1
  · have foreign : (method.builtin || method.container ≠ some object) = true := by
      cases builtin : method.builtin <;> simp_all
    simp only [foreign, if_true]
    refine yields_nothing fun procedure given => ?_
    obtain ⟨notBuiltin, contained, _⟩ := same given.1 given.2
    exact own ⟨notBuiltin, contained⟩

theorem calledAt_yields (wellFormed : model.WellFormed) (object : SymbolId)
    (inside : id < model.nodes.size) :
    Yields (calledAt model object id) (CallsProcedure model object id) := by
  obtain ⟨node, found⟩ := Model.found_of_lt_size inside
  simp only [calledAt, Model.kind_eq_ok found, bind, Except.bind]
  by_cases invocation : node.kind = .invocation
  · simp only [invocation, ne_eq, not_true_eq_false, if_false]
    rcases (Model.call_finds wellFormed inside).cases with
      ⟨none, absent⟩ | ⟨call, some, ⟨method, calls⟩, unique⟩
    · simp only [none]
      refine yields_nothing fun procedure given => ?_
      obtain ⟨_, ⟨call, method, calls, _⟩, _⟩ := given
      exact absent call ⟨method, calls⟩
    · have ⟨_, _, _, _, _, known, _⟩ := calls
      obtain ⟨procedure, succeeded, exact⟩ := procedureOf_yields wellFormed object known
      refine ⟨procedure, ?_, fun other => ?_⟩
      · simp only [some, Model.symbol_eq_ok known]
        exact succeeded
      · rw [exact]
        constructor
        · intro given
          exact ⟨(Model.has_kind_iff found).mpr invocation,
            ⟨call, method, calls, given.1.symm⟩, given.2⟩
        · intro given
          obtain ⟨_, ⟨otherCall, otherMethod, otherCalls, same⟩, isProcedure⟩ := given
          obtain rfl := unique otherCall ⟨otherMethod, otherCalls⟩
          exact ⟨same.symm, isProcedure⟩
  · simp only [invocation, ne_eq, not_false_eq_true, if_true]
    exact yields_nothing fun procedure given =>
      invocation ((Model.has_kind_iff found).mp given.1)

theorem of_mem_unmet {met : List SymbolId} {procedures : List Procedure} {procedure : Procedure}
    (member : procedure ∈ unmet met procedures) :
    procedure ∈ procedures ∧ procedure.method ∉ met := by
  induction procedures generalizing met with
  | nil => simp [unmet] at member
  | cons first rest ih =>
      simp only [unmet] at member
      split at member
      · obtain ⟨inRest, fresh⟩ := ih member
        exact ⟨List.mem_cons_of_mem _ inRest, fresh⟩
      · rename_i firstFresh
        rcases List.mem_cons.mp member with rfl | later
        · exact ⟨by simp, by simpa using firstFresh⟩
        · obtain ⟨inRest, fresh⟩ := ih later
          exact ⟨List.mem_cons_of_mem _ inRest, fun member => fresh (by simp [member])⟩

theorem method_met {met : List SymbolId} {procedures : List Procedure} {procedure : Procedure}
    (member : procedure ∈ procedures) :
    procedure.method ∈ (unmet met procedures).map (·.method) ++ met := by
  induction procedures generalizing met with
  | nil => simp at member
  | cons first rest ih =>
      simp only [unmet]
      split
      · rename_i firstMet
        rcases List.mem_cons.mp member with rfl | later
        · exact List.mem_append_right _ (by simpa using firstMet)
        · exact ih later
      · rcases List.mem_cons.mp member with rfl | later
        · simp
        · rw [List.map_cons, List.cons_append]
          exact List.perm_middle.mem_iff.mp (ih later)

theorem nodup_met {met : List SymbolId} {procedures : List Procedure} (distinct : met.Nodup) :
    ((unmet met procedures).map (·.method) ++ met).Nodup := by
  induction procedures generalizing met with
  | nil => simpa [unmet] using distinct
  | cons first rest ih =>
      simp only [unmet]
      split
      · exact ih distinct
      · rename_i fresh
        have distinctNow : (first.method :: met).Nodup :=
          List.nodup_cons.mpr ⟨by simpa using fresh, distinct⟩
        have later := ih distinctNow
        rw [List.map_cons, List.cons_append]
        exact List.nodup_middle.mp later

/-- A state of the search: the blocks that are done, the methods that have been met and
the blocks that are pending. -/
structure Worklist (model : Model) (object : SymbolId) (done : List NodeId)
    (met : List SymbolId) (pending : List NodeId) : Prop where
  distinct : met.Nodup
  known : ∀ method ∈ met, method < model.symbols.size
  inside : ∀ block ∈ pending, block < model.nodes.size
  -- Whatever a block calls that is done has been met, and what has been met is done
  -- or pending: together they close the search off when nothing is pending.
  followed : ∀ block ∈ done, ∀ procedure, Follows model object block procedure →
    procedure.method ∈ met
  queued : ∀ procedure, IsProcedure model object procedure → procedure.method ∈ met →
    procedure.body ∈ done ∨ procedure.body ∈ pending

theorem Worklist.start (inside : body < model.nodes.size) :
    Worklist model object [] [] [body] where
  distinct := List.nodup_nil
  known := by simp
  inside := by simpa using inside
  followed := by simp
  queued := by simp

namespace Worklist

variable {done pending rest : List NodeId} {met : List SymbolId} {block : NodeId}

theorem step (list : Worklist model object done met (block :: rest))
    (wellFormed : model.WellFormed) {procedures : List Procedure}
    (exact : ∀ procedure, procedure ∈ procedures ↔ Follows model object block procedure) :
    Worklist model object (block :: done) ((unmet met procedures).map (·.method) ++ met)
      ((unmet met procedures).map (·.body) ++ rest) := by
  have isProcedure {procedure : Procedure} (member : procedure ∈ unmet met procedures) :
      IsProcedure model object procedure := by
    obtain ⟨_, _, _, _, isProcedure⟩ := (exact procedure).mp (of_mem_unmet member).1
    exact isProcedure
  constructor
  case distinct => exact nodup_met list.distinct
  case known =>
    intro method member
    rcases List.mem_append.mp member with isNew | isOld
    · obtain ⟨procedure, isCalled, rfl⟩ := List.mem_map.mp isNew
      exact ((isProcedure isCalled).inside wellFormed).1
    · exact list.known method isOld
  case inside =>
    intro other member
    rcases List.mem_append.mp member with isNew | isOld
    · obtain ⟨procedure, isCalled, rfl⟩ := List.mem_map.mp isNew
      exact ((isProcedure isCalled).inside wellFormed).2
    · exact list.inside other (List.mem_cons_of_mem _ isOld)
  case followed =>
    intro other member procedure follows
    rcases List.mem_cons.mp member with rfl | isDone
    · exact method_met ((exact procedure).mpr follows)
    · exact List.mem_append_right _ (list.followed other isDone procedure follows)
  case queued =>
    intro procedure isProcedureHere member
    rcases List.mem_append.mp member with isNew | isOld
    · obtain ⟨called, isCalled, same⟩ := List.mem_map.mp isNew
      obtain rfl := (isProcedure isCalled).unique isProcedureHere same
      exact .inr (List.mem_append_left _ (List.mem_map_of_mem isCalled))
    · rcases list.queued procedure isProcedureHere isOld with isDone | isPending
      · exact .inl (List.mem_cons_of_mem _ isDone)
      · rcases List.mem_cons.mp isPending with here | later
        · exact .inl (by simp [here])
        · exact .inr (List.mem_append_right _ later)

end Worklist

/-- The blocks that a search goes through from one of its states to its end. -/
structure Visits (model : Model) (object : SymbolId) (done pending visited : List NodeId) :
    Prop where
  starts : ∀ block ∈ pending, block ∈ visited
  sound : ∀ block ∈ visited, ∃ start ∈ pending, LeadsTo model object start block
  closed : ∀ block ∈ done ++ visited, ∀ procedure, Follows model object block procedure →
    procedure.body ∈ done ++ visited

/-- With nothing left to do, what is done calls only what is done. -/
theorem Worklist.ended {done : List NodeId} {met : List SymbolId}
    (list : Worklist model object done met []) : Visits model object done [] [] where
  starts := by simp
  sound := by simp
  closed := by
    intro block member procedure follows
    have ⟨_, _, _, _, isProcedure⟩ := follows
    have isMet := list.followed block (by simpa using member) procedure follows
    simpa using list.queued procedure isProcedure isMet

theorem Visits.step {done rest visited called : List NodeId} {block : NodeId}
    (visits : Visits model object (block :: done) (called ++ rest) visited)
    (follows : ∀ next ∈ called, ∃ method, Follows model object block ⟨method, next⟩) :
    Visits model object done (block :: rest) (block :: visited) where
  starts := by
    intro other member
    rcases List.mem_cons.mp member with rfl | inRest
    · simp
    · exact List.mem_cons_of_mem _ (visits.starts other (List.mem_append_right _ inRest))
  sound := by
    intro other member
    rcases List.mem_cons.mp member with rfl | isVisited
    · exact ⟨other, by simp, .refl⟩
    · obtain ⟨start, isPending, leads⟩ := visits.sound other isVisited
      rcases List.mem_append.mp isPending with isCalled | inRest
      · exact ⟨block, by simp, .head (follows start isCalled) leads⟩
      · exact ⟨start, List.mem_cons_of_mem _ inRest, leads⟩
  closed := by
    have moved : (done ++ block :: visited).Perm (block :: done ++ visited) := List.perm_middle
    intro other member procedure followed
    exact moved.mem_iff.mpr (visits.closed other (moved.mem_iff.mp member) procedure followed)

/-- A search with nothing done before goes through what its starting point leads to. -/
theorem Visits.mem_iff {visited : List NodeId} (visits : Visits model object [] [body] visited)
    {block : NodeId} : block ∈ visited ↔ LeadsTo model object body block := by
  constructor
  · intro member
    obtain ⟨start, isStart, leads⟩ := visits.sound block member
    obtain rfl : start = body := by simpa using isStart
    exact leads
  · intro leads
    induction leads with
    | refl => exact visits.starts body (by simp)
    | tail _ follows ih =>
        obtain ⟨method, follows⟩ := follows
        exact visits.closed _ ih ⟨method, _⟩ follows

theorem assignedFrom_eq_ok (wellFormed : model.WellFormed) (globals : List SymbolId) {steps : Nat}
    {done pending : List NodeId} {met : List SymbolId}
    (list : Worklist model object done met pending)
    (enough : pending.length + model.symbols.size ≤ steps + met.length) :
    ∃ found visited, assignedFrom model object globals steps met pending = .ok found ∧
      Visits model object done pending visited ∧ ∀ global, global ∈ found ↔
        ∃ block ∈ visited, ∃ id, model.Encloses block id ∧ global ∈ globals ∧
          AssignsName model id global := by
  induction steps generalizing done met pending with
  | zero =>
      cases pending with
      | nil => exact ⟨[], [], rfl, list.ended, by simp⟩
      | cons block rest =>
          have bound := Model.length_le_size list.distinct list.known
          simp only [List.length_cons] at enough
          omega
  | succ steps ih =>
      cases pending with
      | nil => exact ⟨[], [], rfl, list.ended, by simp⟩
      | cons block rest =>
          obtain ⟨tree, fits, rfl⟩ := wellFormed.treeAt (list.inside block (by simp))
          obtain ⟨assigned, assignedFound, assignedExact⟩ := wellFormed.enclosed_collects fits
            fun id _ inside => (assignedAt_yields wellFormed globals inside).collects
          obtain ⟨procedures, calledFound, calledExact⟩ := wellFormed.enclosed_collects fits
            fun id _ inside => (calledAt_yields wellFormed object inside).collects
          have next := list.step wellFormed calledExact
          have enoughNext :
              ((unmet met procedures).map (·.body) ++ rest).length + model.symbols.size ≤
                steps + ((unmet met procedures).map (·.method) ++ met).length := by
            simp only [List.length_append, List.length_map, List.length_cons] at enough ⊢
            omega
          obtain ⟨later, visited, answered, visits, exact⟩ := ih next enoughNext
          refine ⟨assigned ++ later, tree.id :: visited, ?_, visits.step fun next member => ?_,
            fun global => ?_⟩
          · simp only [assignedFrom, wellFormed.descendants_eq_ok fits, assignedFound, calledFound,
              answered, bind, Except.bind, pure, Except.pure]
          · obtain ⟨procedure, isCalled, rfl⟩ := List.mem_map.mp member
            exact ⟨procedure.method, (calledExact procedure).mp (of_mem_unmet isCalled).1⟩
          · rw [List.mem_append, assignedExact, exact, List.exists_mem_cons_iff]

/-- A search from the body of a trigger ends with exactly the globals that it computes. -/
theorem assignedGlobals_collects (wellFormed : model.WellFormed) (inside : body < model.nodes.size)
    {globals : List SymbolId} (exact : ∀ global, global ∈ globals ↔ IsGlobal model object global) :
    Collects (assignedGlobals model object globals body) (Computed model object body) := by
  have start : Worklist model object [] [] [body] := .start inside
  have enough : 1 + model.symbols.size ≤ model.symbols.size + 1 + 0 := by omega
  obtain ⟨found, visited, answered, visits, members⟩ :=
    assignedFrom_eq_ok wellFormed globals start enough
  refine ⟨found, answered, fun global => ?_⟩
  rw [members]
  constructor
  · intro given
    obtain ⟨block, isVisited, id, encloses, isGlobal, assigns⟩ := given
    exact ⟨(exact global).mp isGlobal, block, id, visits.mem_iff.mp isVisited, encloses, assigns⟩
  · intro given
    obtain ⟨isGlobal, block, id, leads, encloses, assigns⟩ := given
    exact ⟨block, visits.mem_iff.mpr leads, id, encloses, (exact global).mpr isGlobal, assigns⟩

end ModelLint.Rules.SourceExpression
