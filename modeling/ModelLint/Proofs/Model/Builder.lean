import ModelLint.Proofs.Model.Defects

namespace ModelLint.Model.Builder

/-! Models that are built call by call.

A builder gives out the ids of the nodes and symbols that it makes, and is told by id where the
next one goes. As long as it is handed back ids that it has given out, what it has built is a
tree, whose nodes list their children in the order in which these were made. Whether the finished
model is accepted then hangs on its references alone. -/

inductive Call where
  | add (parent : NodeId) (kind : NodeKind)
  | addText (parent : NodeId) (kind : NodeKind) (text : String)
  | identifier (parent : NodeId) (symbol : SymbolId)
  | addSymbol (symbol : Symbol)
  | resolve (node : NodeId) (symbol : SymbolId)
  | declare (node : NodeId) (symbol : SymbolId)
  | comment (node : NodeId) (text : String)
  | setSpan (node : NodeId) (span : Span)
deriving DecidableEq, Repr

/-- The nodes that a call is about. -/
def Call.nodes : Call → List NodeId
  | add parent _ | addText parent _ _ | identifier parent _ => [parent]
  | addSymbol _ => []
  | resolve node _ | declare node _ | comment node _ | setSpan node _ => [node]

/-- The symbols that a call looks up. A node may refer to a symbol that is still to come. -/
def Call.symbols : Call → List SymbolId
  | identifier _ symbol | declare _ symbol => [symbol]
  | _ => []

/-- A builder with the ids that it has given out, in turn. -/
structure Session where
  builder : Builder
  nodes : List NodeId
  symbols : List SymbolId

namespace Session

/-- The root is there from the start. -/
def start (filePath : String) : Session where
  builder := new filePath
  nodes := [0]
  symbols := []

def givenNode (session : Session) (made : NodeId × Builder) : Session :=
  { session with builder := made.2, nodes := session.nodes ++ [made.1] }

def givenSymbol (session : Session) (made : SymbolId × Builder) : Session :=
  { session with builder := made.2, symbols := session.symbols ++ [made.1] }

def perform (session : Session) : Call → Except MissingId Session
  | .add parent kind => return session.givenNode (← session.builder.add parent kind)
  | .addText parent kind text =>
      return session.givenNode (← session.builder.addText parent kind text)
  | .identifier parent symbol =>
      return session.givenNode (← session.builder.identifier parent symbol)
  | .addSymbol symbol => return session.givenSymbol (session.builder.addSymbol symbol)
  | .resolve node symbol => return { session with builder := ← session.builder.resolve node symbol }
  | .declare node symbol => return { session with builder := ← session.builder.declare node symbol }
  | .comment node text => return { session with builder := ← session.builder.comment node text }
  | .setSpan node span => return { session with builder := ← session.builder.setSpan node span }

def performAll (session : Session) (calls : List Call) : Except MissingId Session :=
  calls.foldlM perform session

/-- A call is handed ids that have been given out. -/
def Knows (session : Session) (call : Call) : Prop :=
  (∀ node ∈ call.nodes, node ∈ session.nodes) ∧ ∀ symbol ∈ call.symbols, symbol ∈ session.symbols

/-- Every call is handed ids that were given out before it. -/
def Proper (session : Session) : List Call → Prop
  | [] => True
  | call :: rest =>
      session.Knows call ∧ ∀ next, session.perform call = .ok next → next.Proper rest

instance (session : Session) : DecidablePred session.Knows := fun call =>
  inferInstanceAs (Decidable ((∀ node ∈ call.nodes, node ∈ session.nodes) ∧
    ∀ symbol ∈ call.symbols, symbol ∈ session.symbols))

instance decidableProper (session : Session) : DecidablePred session.Proper
  | [] => .isTrue trivial
  | call :: rest =>
      match performed : session.perform call with
      | .ok next =>
          have := decidableProper next rest
          decidable_of_iff (session.Knows call ∧ next.Proper rest) (by simp [Proper, performed])
      | .error _ => decidable_of_iff (session.Knows call) (by simp [Proper, performed])

end Session

/-- The parent and the children of a node. -/
def links (builder : Builder) (id : NodeId) : Option (Option NodeId × List NodeId) :=
  builder.nodes[id]?.map fun node => (node.parent, node.children)

variable {before middle after : Builder} {parent id : NodeId}

theorem links_eq_some {above : Option NodeId} {below : List NodeId} :
    before.links id = some (above, below) ↔
      ∃ node, before.nodes[id]? = some node ∧ node.parent = above ∧ node.children = below := by
  simp [links]

theorem lt_size_of_links {link : Option NodeId × List NodeId}
    (found : before.links id = some link) : id < before.nodes.size := by
  obtain ⟨node, found, _⟩ := links_eq_some.mp found
  exact (Array.getElem?_eq_some_iff.mp found).1

/-- All links and all symbols stay. -/
structure Keeps (before after : Builder) : Prop where
  links : after.links = before.links
  size : after.nodes.size = before.nodes.size
  symbols : after.symbols.size = before.symbols.size

/-- The arena has grown by a leaf, the last child of its parent. -/
structure Sprouts (before : Builder) (parent : NodeId) (after : Builder) : Prop where
  links : ∀ id, after.links id =
    if id = before.nodes.size then some (some parent, [])
    else (before.links id).map fun (above, below) =>
      (above, if id = parent then below ++ [before.nodes.size] else below)
  size : after.nodes.size = before.nodes.size + 1
  symbols : after.symbols.size = before.symbols.size

theorem Keeps.trans (first : Keeps before middle) (second : Keeps middle after) :
    Keeps before after :=
  ⟨second.links.trans first.links, second.size.trans first.size,
    second.symbols.trans first.symbols⟩

theorem Sprouts.keeps (first : Sprouts before parent middle) (second : Keeps middle after) :
    Sprouts before parent after :=
  ⟨fun id => (congrFun second.links id).trans (first.links id), second.size.trans first.size,
    second.symbols.trans first.symbols⟩

theorem updateNode_keeps (change : Node → Node) (inside : id < before.nodes.size)
    (kept : ∀ node, (change node).parent = node.parent ∧ (change node).children = node.children) :
    ∃ after, before.updateNode id change = .ok after ∧ Keeps before after := by
  refine ⟨_, if_pos inside, ⟨funext fun other => ?_, by simp, rfl⟩⟩
  simp only [links, Array.getElem?_modify]
  split
  · simp [Function.comp_def, kept]
  · rfl

theorem updateSymbol_keeps {symbol : SymbolId} (change : Symbol → Symbol)
    (inside : symbol < before.symbols.size) :
    ∃ after, before.updateSymbol symbol change = .ok after ∧ Keeps before after :=
  ⟨_, if_pos inside, ⟨rfl, rfl, by simp⟩⟩

theorem declare_keeps {symbol : SymbolId} (inside : id < before.nodes.size)
    (known : symbol < before.symbols.size) :
    ∃ after, before.declare id symbol = .ok after ∧ Keeps before after := by
  obtain ⟨middle, declared, first⟩ := updateNode_keeps
    (fun node => { node with declares := some symbol }) inside fun _ => ⟨rfl, rfl⟩
  obtain ⟨after, updated, second⟩ := updateSymbol_keeps
    (fun target => { target with declaration := some id }) (first.symbols ▸ known)
  refine ⟨after, ?_, first.trans second⟩
  simp only [declare, declared, updated, bind, Except.bind]

theorem add_sprouts (kind : NodeKind) (inside : parent < before.nodes.size) :
    ∃ after, before.add parent kind = .ok (before.nodes.size, after) ∧
      Sprouts before parent after := by
  have within : parent < before.nodes.size + 1 := Nat.lt_succ_of_lt inside
  refine ⟨{ before with
    nodes := (before.nodes.push {
      kind := kind
      parent := some parent
      span := { line := before.nodes.size + 1, column := 1 } }).modify parent
        fun node => { node with children := node.children ++ [before.nodes.size] } },
    by simp [add, updateNode, within, bind, Except.bind, pure, Except.pure],
    ⟨fun id => ?_, by simp, rfl⟩⟩
  simp only [links, Array.getElem?_modify, Array.getElem?_push]
  by_cases isNew : id = before.nodes.size
  · have apart : parent ≠ before.nodes.size := Nat.ne_of_lt inside
    simp [isNew, apart]
  · by_cases isParent : parent = id
    · simp [isNew, isParent, Function.comp_def]
    · simp [isNew, isParent, Ne.symm isParent, Function.comp_def]

/-- The leaf just made is changed, and keeps its links. -/
theorem Sprouts.updateNode (sprouts : Sprouts before parent middle) (change : Node → Node)
    (kept : ∀ node, (change node).parent = node.parent ∧ (change node).children = node.children) :
    ∃ after, middle.updateNode before.nodes.size change = .ok after ∧
      Sprouts before parent after := by
  have inside : before.nodes.size < middle.nodes.size := by
    rw [sprouts.size]
    exact Nat.lt_succ_self _
  obtain ⟨after, updated, keeps⟩ := updateNode_keeps change inside kept
  exact ⟨after, updated, sprouts.keeps keeps⟩

theorem addText_sprouts (kind : NodeKind) (text : String) (inside : parent < before.nodes.size) :
    ∃ after, before.addText parent kind text = .ok (before.nodes.size, after) ∧
      Sprouts before parent after := by
  obtain ⟨grown, added, sprouts⟩ := add_sprouts kind inside
  obtain ⟨after, updated, later⟩ := sprouts.updateNode (fun node => { node with
    text := some text, span := { node.span with length := text.utf8ByteSize } })
    fun _ => ⟨rfl, rfl⟩
  refine ⟨after, ?_, later⟩
  simp only [addText, added, updated, bind, Except.bind, pure, Except.pure]

theorem identifier_sprouts {symbol : SymbolId} (inside : parent < before.nodes.size)
    (known : symbol < before.symbols.size) :
    ∃ after, before.identifier parent symbol = .ok (before.nodes.size, after) ∧
      Sprouts before parent after := by
  obtain ⟨grown, added, sprouts⟩ :=
    addText_sprouts .identifier before.symbols[symbol].name inside
  obtain ⟨after, updated, later⟩ := sprouts.updateNode
    (fun node => { node with symbol := some symbol }) fun _ => ⟨rfl, rfl⟩
  refine ⟨after, ?_, later⟩
  simp only [identifier, Array.getElem?_eq_getElem known, added, resolve, updated, bind,
    Except.bind, pure, Except.pure]

/-- A tree that has grown by leaves: every node but the first has been made after the node that
lists it. -/
structure Grown (builder : Builder) : Prop where
  rooted : ∃ below, builder.links 0 = some (none, below)
  linked : ∀ id above below child, builder.links id = some (above, below) → child ∈ below →
    ∃ own, builder.links child = some (some id, own)
  listed : ∀ id < builder.nodes.size, id ≠ 0 → ∃ parent < id, ∃ above below,
    builder.links parent = some (above, below) ∧ id ∈ below
  ordered : ∀ id above below, builder.links id = some (above, below) → below.Pairwise (· < ·)

theorem grown_new (filePath : String) : Grown (new filePath) := by
  have only (id : NodeId) (above : Option NodeId) (below : List NodeId)
      (found : (new filePath).links id = some (above, below)) : below = [] := by
    obtain ⟨node, lookup, _, rfl⟩ := links_eq_some.mp found
    cases id with
    | zero => cases lookup; rfl
    | succ id => simp [new] at lookup
  refine ⟨⟨[], rfl⟩, ?_, ?_, ?_⟩
  · intro id above below child found member
    simp [only id above below found] at member
  · intro id inside other
    exact absurd (Nat.lt_one_iff.mp inside) other
  · intro id above below found
    simp [only id above below found]

theorem Grown.keeps (grown : before.Grown) (keeps : Keeps before after) : after.Grown := by
  obtain ⟨rooted, linked, listed, ordered⟩ := grown
  rw [← keeps.links] at rooted linked listed ordered
  rw [← keeps.size] at listed
  exact ⟨rooted, linked, listed, ordered⟩

namespace Sprouts

variable {above : Option NodeId} {below : List NodeId}

theorem old (sprouts : Sprouts before parent after)
    (found : before.links id = some (above, below)) :
    after.links id =
      some (above, if id = parent then below ++ [before.nodes.size] else below) := by
  have apart : id ≠ before.nodes.size := Nat.ne_of_lt (lt_size_of_links found)
  rw [sprouts.links, if_neg apart, found]
  rfl

theorem leaf (sprouts : Sprouts before parent after) :
    after.links before.nodes.size = some (some parent, []) := by
  rw [sprouts.links, if_pos rfl]

/-- Each node is the leaf or an old one, which lists the leaf only if it is its parent. -/
theorem links_cases (sprouts : Sprouts before parent after)
    (found : after.links id = some (above, below)) :
    below = [] ∨ ∃ own, before.links id = some (above, own) ∧
      (below = own ∨ id = parent ∧ below = own ++ [before.nodes.size]) := by
  rw [sprouts.links] at found
  split at found
  · cases found
    exact .inl rfl
  · obtain ⟨⟨oldAbove, own⟩, oldFound, same⟩ := Option.map_eq_some_iff.mp found
    cases same
    by_cases isParent : id = parent
    · exact .inr ⟨own, oldFound, .inr ⟨isParent, if_pos isParent⟩⟩
    · exact .inr ⟨own, oldFound, .inl (if_neg isParent)⟩

end Sprouts

theorem Grown.child_inside (grown : before.Grown) {above : Option NodeId} {below : List NodeId}
    (found : before.links id = some (above, below)) :
    ∀ child ∈ below, child < before.nodes.size := by
  intro child member
  obtain ⟨own, childFound⟩ := grown.linked id above below child found member
  exact lt_size_of_links childFound

theorem Grown.sprouts (grown : before.Grown) (inside : parent < before.nodes.size)
    (sprouts : Sprouts before parent after) : after.Grown := by
  refine ⟨?_, ?_, ?_, ?_⟩
  · obtain ⟨below, found⟩ := grown.rooted
    exact ⟨_, sprouts.old found⟩
  · intro id above below child found member
    rcases sprouts.links_cases found with rfl | ⟨own, oldFound, rfl | ⟨rfl, rfl⟩⟩
    · cases member
    · obtain ⟨inner, childFound⟩ := grown.linked id above below child oldFound member
      exact ⟨_, sprouts.old childFound⟩
    · rcases List.mem_append.mp member with listed | isLeaf
      · obtain ⟨inner, childFound⟩ := grown.linked id above own child oldFound listed
        exact ⟨_, sprouts.old childFound⟩
      · rw [List.mem_singleton.mp isLeaf]
        exact ⟨[], sprouts.leaf⟩
  · intro id within other
    rw [sprouts.size] at within
    rcases Nat.lt_succ_iff_lt_or_eq.mp within with earlier | rfl
    · obtain ⟨lister, smaller, above, below, found, member⟩ := grown.listed id earlier other
      refine ⟨lister, smaller, above, _, sprouts.old found, ?_⟩
      split
      · exact List.mem_append_left _ member
      · exact member
    · have link := links_eq_some.mpr ⟨_, Array.getElem?_eq_getElem inside, rfl, rfl⟩
      exact ⟨parent, inside, _, _, sprouts.old link, by simp⟩
  · intro id above below found
    rcases sprouts.links_cases found with rfl | ⟨own, oldFound, rfl | ⟨rfl, rfl⟩⟩
    · exact List.Pairwise.nil
    · exact grown.ordered id above below oldFound
    · -- The leaf has the greatest id so far.
      refine List.pairwise_append.mpr ⟨grown.ordered id above own oldFound, by simp, ?_⟩
      intro child member leaf isLeaf
      rw [List.mem_singleton.mp isLeaf]
      exact grown.child_inside oldFound child member

namespace Session

/-- The ids given out are those of the nodes and symbols, and the nodes form a tree. -/
structure Sound (session : Session) : Prop where
  grown : session.builder.Grown
  nodes : session.nodes = List.range session.builder.nodes.size
  symbols : session.symbols = List.range session.builder.symbols.size

variable {session : Session}

theorem sound_start (filePath : String) : (start filePath).Sound :=
  ⟨grown_new filePath, rfl, rfl⟩

namespace Sound

theorem change (sound : session.Sound) {changed : Except MissingId Builder}
    (kept : ∃ after, changed = .ok after ∧ Keeps session.builder after) :
    ∃ next, (do return { session with builder := ← changed }) = Except.ok next ∧ next.Sound := by
  obtain ⟨after, rfl, keeps⟩ := kept
  exact ⟨_, rfl, sound.grown.keeps keeps, by rw [keeps.size]; exact sound.nodes,
    by rw [keeps.symbols]; exact sound.symbols⟩

theorem makeNode (sound : session.Sound) (inside : parent < session.builder.nodes.size)
    {made : Except MissingId (NodeId × Builder)}
    (grows : ∃ after, made = .ok (session.builder.nodes.size, after) ∧
      Sprouts session.builder parent after) :
    ∃ next, (do return session.givenNode (← made)) = Except.ok next ∧ next.Sound := by
  obtain ⟨after, rfl, sprouts⟩ := grows
  refine ⟨_, rfl, sound.grown.sprouts inside sprouts, ?_, ?_⟩
  · simp only [givenNode, sprouts.size, sound.nodes, List.range_succ]
  · simp only [givenNode, sprouts.symbols, sound.symbols]

theorem makeSymbol (sound : session.Sound) (symbol : Symbol) :
    (session.givenSymbol (session.builder.addSymbol symbol)).Sound := by
  obtain ⟨grown, nodes, symbols⟩ := sound
  refine ⟨⟨grown.rooted, grown.linked, grown.listed, grown.ordered⟩, nodes, ?_⟩
  simp [givenSymbol, addSymbol, symbols, List.range_succ]

/-- A call with known ids succeeds. -/
theorem perform (sound : session.Sound) {call : Call} (knows : session.Knows call) :
    ∃ next, session.perform call = .ok next ∧ next.Sound := by
  have inside : ∀ node ∈ call.nodes, node < session.builder.nodes.size := by
    intro node passed
    simpa [sound.nodes] using knows.1 node passed
  have known : ∀ symbol ∈ call.symbols, symbol < session.builder.symbols.size := by
    intro symbol passed
    simpa [sound.symbols] using knows.2 symbol passed
  cases call with
  | add parent kind =>
      have there := inside parent (List.mem_singleton_self _)
      exact sound.makeNode there (add_sprouts kind there)
  | addText parent kind text =>
      have there := inside parent (List.mem_singleton_self _)
      exact sound.makeNode there (addText_sprouts kind text there)
  | identifier parent symbol =>
      have there := inside parent (List.mem_singleton_self _)
      exact sound.makeNode there
        (identifier_sprouts there (known symbol (List.mem_singleton_self _)))
  | addSymbol symbol => exact ⟨_, rfl, sound.makeSymbol symbol⟩
  | resolve node symbol =>
      have there := inside node (List.mem_singleton_self _)
      exact sound.change (updateNode_keeps _ there fun _ => ⟨rfl, rfl⟩)
  | declare node symbol =>
      have there := inside node (List.mem_singleton_self _)
      exact sound.change (declare_keeps there (known symbol (List.mem_singleton_self _)))
  | comment node text =>
      have there := inside node (List.mem_singleton_self _)
      exact sound.change (updateNode_keeps _ there fun _ => ⟨rfl, rfl⟩)
  | setSpan node span =>
      have there := inside node (List.mem_singleton_self _)
      exact sound.change (updateNode_keeps _ there fun _ => ⟨rfl, rfl⟩)

theorem performAll (sound : session.Sound) {calls : List Call} (proper : session.Proper calls) :
    ∃ last, session.performAll calls = .ok last ∧ last.Sound := by
  induction calls generalizing session with
  | nil => exact ⟨session, rfl, sound⟩
  | cons call rest ih =>
      obtain ⟨next, performed, nextSound⟩ := sound.perform proper.1
      obtain ⟨last, finished, lastSound⟩ := ih nextSound (proper.2 next performed)
      refine ⟨last, ?_, lastSound⟩
      rw [Session.performAll, List.foldlM_cons, performed]
      exact finished

end Sound

end Session

/-- Every reference that has been recorded has something behind it in the end. -/
structure Closed (builder : Builder) : Prop where
  nodeSymbols : ∀ (id : NodeId) (node : Node), builder.nodes[id]? = some node → ∀ symbol,
    node.symbol = some symbol ∨ node.declares = some symbol → symbol < builder.symbols.size
  containers : ∀ (id : SymbolId) (symbol : Symbol), builder.symbols[id]? = some symbol →
    ∀ container, symbol.container = some container → container < builder.symbols.size
  declarations : ∀ (id : SymbolId) (symbol : Symbol), builder.symbols[id]? = some symbol →
    ∀ declaration, symbol.declaration = some declaration → declaration < builder.nodes.size

namespace Grown

variable {builder : Builder}

theorem model_rooted (grown : builder.Grown) :
    ∃ root, builder.model.nodes[builder.model.root]? = some root ∧ root.parent = none := by
  obtain ⟨below, link⟩ := grown.rooted
  obtain ⟨root, found, orphan, _⟩ := links_eq_some.mp link
  exact ⟨root, found, orphan⟩

theorem model_linked (grown : builder.Grown) (parent child : NodeId)
    (lists : builder.model.Lists parent child) :
    ∃ node, builder.model.nodes[child]? = some node ∧ node.parent = some parent := by
  obtain ⟨lister, found, member⟩ := lists
  obtain ⟨own, link⟩ :=
    grown.linked parent _ _ child (links_eq_some.mpr ⟨lister, found, rfl, rfl⟩) member
  obtain ⟨node, nodeFound, isParent, _⟩ := links_eq_some.mp link
  exact ⟨node, nodeFound, isParent⟩

theorem model_ordered (grown : builder.Grown) {node : Node}
    (found : builder.model.nodes[id]? = some node) : node.children.Pairwise (· < ·) :=
  grown.ordered id _ _ (links_eq_some.mpr ⟨node, found, rfl, rfl⟩)

theorem model_distinct (grown : builder.Grown) {node : Node}
    (found : builder.model.nodes[id]? = some node) : node.children.Nodup :=
  (grown.model_ordered found).imp Nat.ne_of_lt

theorem model_reached (grown : builder.Grown) (id : NodeId)
    (inside : id < builder.model.nodes.size) : builder.model.Reaches builder.model.root id := by
  induction id using Nat.strongRecOn with
  | ind id ih =>
      by_cases isRoot : id = 0
      · rw [isRoot]
        exact .refl
      · obtain ⟨parent, smaller, above, below, link, member⟩ := grown.listed id inside isRoot
        obtain ⟨lister, found, _, rfl⟩ := links_eq_some.mp link
        exact .tail (ih parent smaller (Nat.lt_trans smaller inside)) ⟨lister, found, member⟩

theorem wellFormed_iff (grown : builder.Grown) : builder.model.WellFormed ↔ builder.Closed := by
  constructor
  · intro wellFormed
    exact ⟨wellFormed.nodeSymbols, wellFormed.containers, wellFormed.declarations⟩
  · intro closed
    exact ⟨grown.model_rooted, grown.model_linked, fun _ _ => grown.model_distinct,
      grown.model_reached, closed.nodeSymbols, closed.containers, closed.declarations⟩

end Grown

/-- Calls with known ids all succeed. The finished model is accepted exactly if every reference
has something behind it in the end, and is refused only for a reference that has not. Ids count
the nodes as they are made, and each node lists its children in that order. -/
theorem build_after_proper_calls (filePath : String) (calls : List Call)
    (proper : (Session.start filePath).Proper calls) :
    ∃ session, (Session.start filePath).performAll calls = .ok session ∧
      session.nodes = List.range session.builder.nodes.size ∧
      (session.builder.build = .ok session.builder.model ↔ session.builder.Closed) ∧
      (¬ session.builder.Closed → ∃ defect, session.builder.build = .error defect ∧
        ((∃ symbol, defect = .danglingSymbol symbol) ∨
          ∃ node referencedBy, defect = .danglingNode node referencedBy)) ∧
      ∀ model, session.builder.build = .ok model → ∀ (id : NodeId) (node : Node),
        model.nodes[id]? = some node → node.children.Pairwise (· < ·) := by
  obtain ⟨session, performed, sound⟩ := (Session.sound_start filePath).performAll proper
  have grown := sound.grown
  refine ⟨session, performed, sound.nodes, ?_, ?_, ?_⟩
  · rw [build_eq_ok_iff, check_iff_wellFormed, grown.wellFormed_iff]
    exact and_iff_right rfl
  · intro opened
    rw [← grown.wellFormed_iff, ← check_iff_wellFormed] at opened
    cases checked : session.builder.model.check with
    | ok => contradiction
    | error defect =>
        refine ⟨defect, by simp only [build, checked]; rfl, ?_⟩
        exact (shows_of_check_eq_error checked).dangling grown.model_rooted grown.model_linked
          (fun _ _ => grown.model_distinct) grown.model_reached
  · intro model built id node found
    obtain ⟨rfl, _⟩ := build_eq_ok_iff.mp built
    exact grown.model_ordered found

/-- A procedure whose body refers to a symbol that is made only afterwards. -/
def lateSymbol : List Call := [
  .addText 0 .procedure "Post",
  .add 1 .block,
  .resolve 2 1,
  .addSymbol { name := "Post", kind := .method, container := some 1 },
  .identifier 2 0,
  .declare 1 0,
  .comment 2 "// later",
  .addSymbol { name := "Ledger", kind := .object .codeunit }]

theorem build_after_proper_calls_lateSymbol :
    (Session.start "Ledger.al").Proper lateSymbol ∧
      ∃ session, (Session.start "Ledger.al").performAll lateSymbol = .ok session ∧
        session.builder.nodes.size = 4 ∧ session.builder.Closed := by
  have proper : (Session.start "Ledger.al").Proper lateSymbol := by decide +kernel
  have computed : ((Session.start "Ledger.al").performAll lateSymbol).map
      (fun session => (session.nodes, session.builder.model.check)) =
        .ok ([0, 1, 2, 3], .ok ()) := by
    decide +kernel
  obtain ⟨session, performed, given, accepted, _⟩ :=
    build_after_proper_calls "Ledger.al" lateSymbol proper
  simp only [performed, Except.map, Except.ok.injEq, Prod.mk.injEq] at computed
  refine ⟨proper, session, performed, ?_, accepted.mp (build_eq_ok_iff.mpr ⟨rfl, computed.2⟩)⟩
  rw [computed.1] at given
  simpa using (congrArg List.length given).symm

end ModelLint.Model.Builder
