import ModelLint.Proofs.Rules.SourceExpression.Computed

namespace ModelLint.Rules.SourceExpression

/-! Which fields show a global that a trigger computes. -/

open Fallible

/-- The first of some nodes that names one of the symbols looked for. -/
def FirstNaming (model : Model) (sought : SymbolId → Prop) (nodes : List NodeId)
    (reader : NodeId) (symbol : SymbolId) : Prop :=
  ∃ before after, nodes = before ++ reader :: after ∧ model.Names reader symbol ∧ sought symbol ∧
    ∀ earlier ∈ before, ∀ other, model.Names earlier other → ¬ sought other

/-- A field of a page whose source expression names one of the symbols looked for, with
the finding for the first such name. -/
def Shows (model : Model) (sought : SymbolId → Prop) (field : NodeId) (finding : Finding) : Prop :=
  model.Has (·.kind = .pageField) field = true ∧ ∃ (source : Tree) (reader : NodeId) (node : Node)
      (global : SymbolId) (symbol : Symbol),
    model.ChildAt field 0 source.id ∧ source.Fits model ∧
    FirstNaming model sought source.preorder reader global ∧
    model.nodes[reader]? = some node ∧ model.symbols[global]? = some symbol ∧
    finding = { place := .span node.span, args := [symbol.name], anchor := some reader }

variable {model : Model} {sought : SymbolId → Prop} {id : NodeId}

theorem names_unique {left right : SymbolId} (first : model.Names id left)
    (second : model.Names id right) : left = right := by
  obtain ⟨node, found, _, isLeft⟩ := first
  obtain ⟨again, againFound, _, isRight⟩ := second
  obtain rfl : node = again := by simpa [found] using againFound
  simpa [isLeft] using isRight

theorem firstNaming_cons {rest : List NodeId} {reader : NodeId} {symbol : SymbolId} :
    FirstNaming model sought (id :: rest) reader symbol ↔
      (reader = id ∧ model.Names id symbol ∧ sought symbol) ∨
      ((∀ other, model.Names id other → ¬ sought other) ∧
        FirstNaming model sought rest reader symbol) := by
  constructor
  · intro first
    obtain ⟨before, after, split, names, isSought, none⟩ := first
    cases before with
    | nil =>
        obtain ⟨rfl, rfl⟩ : id = reader ∧ rest = after := by simpa using split
        exact .inl ⟨rfl, names, isSought⟩
    | cons head before =>
        obtain ⟨rfl, rfl⟩ : id = head ∧ rest = before ++ reader :: after := by simpa using split
        exact .inr ⟨none id (by simp), before, after, rfl, names, isSought, fun earlier member =>
          none earlier (List.mem_cons_of_mem _ member)⟩
  · intro given
    rcases given with ⟨rfl, names, isSought⟩ | ⟨noneHere, before, after, rfl, names, isSought, none⟩
    · exact ⟨[], rest, rfl, names, isSought, by simp⟩
    · exact ⟨id :: before, after, rfl, names, isSought, List.forall_mem_cons.mpr ⟨noneHere, none⟩⟩

theorem firstNaming_unique {nodes : List NodeId} {reader other : NodeId} {symbol global : SymbolId}
    (first : FirstNaming model sought nodes reader symbol)
    (second : FirstNaming model sought nodes other global) : reader = other ∧ symbol = global := by
  induction nodes with
  | nil =>
      obtain ⟨before, after, split, _⟩ := first
      simp at split
  | cons head rest ih =>
      rcases firstNaming_cons.mp first with ⟨rfl, names, isSought⟩ | ⟨noneHere, firstLater⟩ <;>
        rcases firstNaming_cons.mp second with ⟨rfl, otherNames, otherSought⟩ | ⟨noneHere', later⟩
      · exact ⟨rfl, names_unique names otherNames⟩
      · exact absurd isSought (noneHere' symbol names)
      · exact absurd otherSought (noneHere global otherNames)
      · exact ih firstLater later

theorem firstReader_finds {assigned : List SymbolId} {nodes : List NodeId}
    (exact : ∀ global, global ∈ assigned ↔ sought global)
    (inside : ∀ id ∈ nodes, id < model.nodes.size) :
    Finds (firstReader model assigned nodes) fun found =>
      FirstNaming model sought nodes found.1 found.2 := by
  induction nodes with
  | nil =>
      refine finds_none fun found first => ?_
      obtain ⟨before, after, split, _⟩ := first
      simp at split
  | cons id rest ih =>
      obtain ⟨symbol, answered, names⟩ := Model.identifierSymbol_finds (inside id (by simp))
      have selected (global : SymbolId) : symbol.filter assigned.contains = some global ↔
          model.Names id global ∧ sought global := by
        rw [Option.filter_eq_some_iff, names, List.contains_iff_mem, exact]
      simp only [firstReader, answered, bind, Except.bind, firstNaming_cons]
      cases reads : symbol.filter assigned.contains with
      | none =>
          have noneHere : ∀ other, model.Names id other → ¬ sought other := by
            intro other named isSought
            simpa [reads] using (selected other).mpr ⟨named, isSought⟩
          refine (ih fun other member => inside other (List.mem_cons_of_mem _ member)).congr ?_
          intro found
          constructor
          · exact fun later => .inr ⟨noneHere, later⟩
          · intro either
            rcases either with ⟨_, named, isSought⟩ | ⟨_, later⟩
            · exact absurd isSought (noneHere found.2 named)
            · exact later
      | some global =>
          have ⟨named, isSought⟩ := (selected global).mp reads
          refine finds_some (.inl ⟨rfl, named, isSought⟩) fun other either => ?_
          rcases either with ⟨same, otherNamed, _⟩ | ⟨noneHere, _⟩
          · exact Prod.ext same (names_unique otherNamed named)
          · exact absurd isSought (noneHere global named)

theorem fieldFinding_yields (wellFormed : model.WellFormed) {assigned : List SymbolId}
    (exact : ∀ global, global ∈ assigned ↔ sought global) (inside : id < model.nodes.size) :
    Yields (fieldFinding model assigned id) (Shows model sought id) := by
  obtain ⟨node, found⟩ := Model.found_of_lt_size inside
  simp only [fieldFinding, Model.node_eq_ok found, bind, Except.bind]
  split
  · rename_i first others isField parts
    have childAt : model.ChildAt id 0 first := ⟨node, found, by simp [parts]⟩
    obtain ⟨source, fits, rfl⟩ := wellFormed.treeAt (childAt.inside wellFormed)
    have sourceInside : ∀ id ∈ source.preorder, id < model.nodes.size := fun id member =>
      Model.lt_size_of_reaches wellFormed (childAt.inside wellFormed)
        (fits.mem_preorder_iff.mp member)
    have sourceOf {other : Tree} (otherChildAt : model.ChildAt id 0 other.id)
        (otherFits : other.Fits model) : other = source := by
      obtain ⟨_, otherParts⟩ := otherChildAt.first found
      exact otherFits.unique fits (by simp_all)
    simp only [wellFormed.descendantsAndSelf_eq_ok fits]
    rcases (firstReader_finds exact sourceInside).cases with
      ⟨none, absent⟩ | ⟨⟨reader, global⟩, some, isFirst, unique⟩
    · simp only [none]
      refine yields_nothing fun finding shows => ?_
      obtain ⟨_, other, reader, _, global, _, otherChildAt, otherFits, isFirst, _⟩ := shows
      rw [sourceOf otherChildAt otherFits] at isFirst
      exact absent (reader, global) isFirst
    · have ⟨_, _, _, ⟨readerNode, readerFound, isName, resolved⟩, _⟩ := isFirst
      obtain ⟨symbol, known⟩ := Model.symbol_of_lt_size
        (wellFormed.nodeSymbols reader readerNode readerFound global (.inl resolved))
      simp only [some, Model.symbol_eq_ok known, Model.findingAt, Model.node_eq_ok readerFound,
        bind, Except.bind]
      refine yields_one ⟨by simp [Model.Has, found, isField], source, reader, readerNode, global,
        symbol, childAt, fits, isFirst, readerFound, known, rfl⟩ fun finding shows => ?_
      obtain ⟨_, other, otherReader, otherNode, otherGlobal, otherSymbol, otherChildAt, otherFits,
        otherFirst, otherFound, otherKnown, rfl⟩ := shows
      rw [sourceOf otherChildAt otherFits] at otherFirst
      obtain ⟨rfl, rfl⟩ := firstNaming_unique otherFirst isFirst
      simp_all
  · rename_i noField
    refine yields_nothing fun finding shows => ?_
    obtain ⟨isField, source, _, _, _, _, childAt, _⟩ := shows
    obtain ⟨others, parts⟩ := childAt.first found
    exact noField source.id others (by simpa [Model.Has, found] using isField) parts

theorem check_eq_ok (wellFormed : model.WellFormed) {trigger body : NodeId} {page : SymbolId}
    {tree : Tree} (fits : tree.Fits model)
    (named : model.Has (·.isNamed "OnAfterGetRecord") trigger = true)
    (enclosing : model.EnclosingObject trigger tree.id)
    (isPage : model.Has (·.kind.objectKind?.any ObjectKind.isPageLike) tree.id = true)
    (current : ¬ model.DeclaresObsolete tree.id)
    (declares : model.Has (·.declares = some page) tree.id = true)
    (hasBody : model.HasBody trigger body) :
    ∃ findings, check model trigger = .ok findings ∧
      Reports (Shows model (Computed model page body)) (Tree.nodes tree.branches) findings := by
  obtain ⟨node, found, isNamed⟩ := Model.has_iff.mp named
  have inside := Model.lt_size_of_found found
  have objectFound := (Model.enclosingObject_finds wellFormed inside).eq_some enclosing
  have pageLike : tree.content.kind.objectKind?.any ObjectKind.isPageLike = true := by
    simpa [Model.Has, fits.found] using isPage
  have declared : tree.content.declares = some page := by
    simpa [Model.Has, fits.found] using declares
  have notObsolete := (Model.declaresObsolete_decides wellFormed
    (Model.lt_size_of_found fits.found)).eq_false current
  have bodyFound := (Model.body_finds wellFormed inside).eq_some hasBody
  obtain ⟨assigned, assignedFound, exact⟩ := assignedGlobals_collects wellFormed
    (hasBody.inside wellFormed) (mem_globals model page)
  simp only [check, Model.node_eq_ok found, isNamed, objectFound, Model.kind_eq_ok fits.found,
    pageLike, notObsolete, Model.node_eq_ok fits.found, declared, bodyFound,
    assignedFound, wellFormed.descendants_eq_ok fits, bind, Except.bind, Bool.not_true,
    Bool.false_eq_true, if_false]
  cases assigned with
  | nil =>
      refine ⟨[], by simp [pure, Except.pure], reports_nothing fun field _ finding shows => ?_⟩
      obtain ⟨_, _, _, _, global, _, _, _, ⟨_, _, _, _, computed, _⟩, _⟩ := shows
      simpa using (exact global).mpr computed
  | cons global rest =>
      simp only [List.isEmpty_cons, Bool.false_eq_true, if_false]
      exact Model.gather_yields fun field member => fieldFinding_yields wellFormed exact
        (Model.lt_size_of_reaches wellFormed (Model.lt_size_of_found fits.found)
          (fits.mem_nodes_branches_iff.mp member).to_reflTransGen)

/-- At a trigger of an accepted model the findings are, one for one and in order, those
of the fields of its page that show a global it computes. -/
theorem onNode_reports_fields (accepted : model.check = .ok ()) {trigger object body : NodeId}
    {page : SymbolId} (named : model.Has (·.isNamed "OnAfterGetRecord") trigger = true)
    (enclosing : model.EnclosingObject trigger object)
    (isPage : model.Has (·.kind.objectKind?.any ObjectKind.isPageLike) object = true)
    (current : ¬ model.DeclaresObsolete object)
    (declares : model.Has (·.declares = some page) object = true)
    (hasBody : model.HasBody trigger body) (path : String) (cancelled : Bool) :
    ∃ (tree : Tree) (findings : List Finding), tree.Fits model ∧ tree.id = object ∧
      (Tree.nodes tree.branches).Nodup ∧
      (∀ id, id ∈ Tree.nodes tree.branches ↔ model.Encloses object id) ∧
      rule.onNode ⟨model, path, cancelled⟩ trigger = { findings := findings } ∧
      Reports (Shows model (Computed model page body)) (Tree.nodes tree.branches) findings := by
  have wellFormed := Model.wellFormed_of_check accepted
  obtain ⟨_, objectFound, _⟩ := Model.has_iff.mp isPage
  obtain ⟨tree, fits, rfl⟩ := wellFormed.treeAt (Model.lt_size_of_found objectFound)
  obtain ⟨findings, answered, reports⟩ :=
    check_eq_ok wellFormed fits named enclosing isPage current declares hasBody
  refine ⟨tree, findings, fits, rfl, wellFormed.nodes_nodup fits,
    fun id => fits.mem_nodes_branches_iff, ?_, reports⟩
  simp [rule, answered, Outcome.ofCheck]

/-- A page that shows a total, which its trigger leaves to a recursive procedure. -/
def recursiveTotal : Model where
  filePath := "Total.al"
  nodes := #[
    { kind := .compilationUnit, children := [1] },
    { kind := .object .page, parent := some 0, children := [2, 4, 8], declares := some 0 },
    { kind := .pageField, parent := some 1, children := [3] },
    { kind := .identifier, span := ⟨4, 30, 80, 5⟩, parent := some 2, symbol := some 1 },
    { kind := .trigger, parent := some 1, children := [5], text := some "OnAfterGetRecord" },
    { kind := .block, parent := some 4, children := [6] },
    { kind := .invocation, parent := some 5, children := [7] },
    { kind := .identifier, parent := some 6, symbol := some 2 },
    { kind := .procedure, parent := some 1, children := [9], declares := some 2 },
    { kind := .block, parent := some 8, children := [10, 12] },
    { kind := .invocation, parent := some 9, children := [11] },
    { kind := .identifier, parent := some 10, symbol := some 2 },
    { kind := .assignment, parent := some 9, children := [13, 14] },
    { kind := .identifier, parent := some 12, symbol := some 1 },
    { kind := .literal, parent := some 12 }]
  symbols := #[
    { name := "Customer Card", kind := .object .page },
    { name := "Total", kind := .globalVariable, container := some 0 },
    { name := "Refresh", kind := .method, container := some 0, declaration := some 8 }]

theorem onNode_reports_fields_recursiveTotal :
    ∃ tree : Tree, tree.Fits recursiveTotal ∧ tree.id = 1 ∧
      Reports (Shows recursiveTotal (Computed recursiveTotal 0 5)) (Tree.nodes tree.branches) [
        { place := .span ⟨4, 30, 80, 5⟩, args := ["Total"], anchor := some 3 }] := by
  have accepted : recursiveTotal.check = .ok () := by decide +kernel
  have wellFormed := Model.wellFormed_of_check accepted
  have enclosing : recursiveTotal.EnclosingObject 4 1 :=
    (Model.enclosingObject_finds wellFormed (by decide)).of_eq_some (by decide +kernel)
  have current : ¬ recursiveTotal.DeclaresObsolete 1 :=
    (Model.declaresObsolete_decides wellFormed (by decide)).not_of_eq_false (by decide +kernel)
  have hasBody : recursiveTotal.HasBody 4 5 := ⟨_, rfl, by decide⟩
  obtain ⟨tree, findings, fits, same, _, _, answered, reports⟩ :=
    onNode_reports_fields accepted (by decide) enclosing (by decide) current
      (by decide : recursiveTotal.Has (·.declares = some 0) 1 = true) hasBody "Total.al" false
  have computed : rule.onNode ⟨recursiveTotal, "Total.al", false⟩ 4 = { findings := [
      { place := .span ⟨4, 30, 80, 5⟩, args := ["Total"], anchor := some 3 }] } := by
    decide +kernel
  obtain rfl := congrArg Outcome.findings (answered.symm.trans computed)
  exact ⟨tree, fits, same, reports⟩

end ModelLint.Rules.SourceExpression
