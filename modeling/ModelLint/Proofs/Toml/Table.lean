import Mathlib.Data.List.Basic
import ModelLint.Toml.Table

namespace ModelLint.Toml

/-! Tables added to a document.

Each statement of a document changes what stands under one of the keys of the top table, and
reads nothing else. So statements go the same way whether or not there is a table under a key that
none of them names, and a header with its keys can be added to a document between two of its
tables. Main statement: `documentOf?_insert`. -/

/-- A way to put an item under its key that changes nothing under the other keys. -/
def Places (place : Entries → String → Item → Entries) : Prop :=
  ∀ entries key item other,
    (place entries key item).lookup other = if other = key then some item else entries.lookup other

namespace Entries

theorem lookup_replace (entries : Entries) (key other : String) (item : Item) :
    (entries.map fun entry => if entry.1 = key then (key, item) else entry).lookup other =
      if other = key then (entries.lookup key).map fun _ => item else entries.lookup other := by
  induction entries with
  | nil => simp
  | cons entry rest ih =>
      obtain ⟨first, old⟩ := entry
      by_cases here : first = key
      · by_cases wanted : other = key
        · simp [here, wanted]
        · simp only [List.map_cons, here, if_true, List.lookup_cons, beq_false_of_ne wanted, ih,
            if_neg wanted]
      · by_cases wanted : other = key
        · subst wanted
          have passed : (other == first) = false := beq_false_of_ne (Ne.symm here)
          simp [here, List.lookup_cons, passed, ih]
        · simp only [List.map_cons, here, if_false, List.lookup_cons, ih, if_neg wanted]

theorem places_put : Places put := by
  intro entries key item other
  unfold put
  split
  · rename_i found
    obtain ⟨old, present⟩ := Option.isSome_iff_exists.mp found
    rw [lookup_replace, present, Option.map_some]
  · rename_i absent
    rw [Option.not_isSome_iff_eq_none] at absent
    rw [List.lookup_append]
    by_cases wanted : other = key
    · simp [wanted, absent]
    · simp [wanted, List.lookup_cons, beq_false_of_ne wanted]

theorem lookup_filter_ne (entries : Entries) (key other : String) :
    (entries.filter (·.1 ≠ key)).lookup other =
      if other = key then none else entries.lookup other := by
  induction entries with
  | nil => simp
  | cons entry rest ih =>
      obtain ⟨first, item⟩ := entry
      by_cases here : first = key
      · rw [List.filter_cons_of_neg (by simpa using here), ih, here]
        split
        · rfl
        · rename_i wanted
          rw [List.lookup_cons, beq_false_of_ne wanted]
      · rw [List.filter_cons_of_pos (by simpa using here), List.lookup_cons, List.lookup_cons, ih]
        split
        · rename_i found
          rw [if_neg (beq_iff_eq.mp found ▸ here)]
        · rfl

theorem places_putLast : Places putLast := by
  intro entries key item other
  rw [putLast, List.lookup_append, lookup_filter_ne]
  by_cases wanted : other = key
  · simp [wanted]
  · simp [wanted, List.lookup_cons, beq_false_of_ne wanted]

/-- A change that reads and sets what stands under one key only. -/
def ActsOn (key : String) (change : Entries → Option Entries) : Prop :=
  ∃ place, Places place ∧ ∃ next : Option Item → Option Item,
    ∀ entries, change entries = (next (entries.lookup key)).map (place entries key)

/-- What a change at the end of a path makes of the item under the first key of the path. -/
def changedItem? (missing : Origin) (change : Origin → Entries → Option Entries)
    (path : List String) : Option Item → Option Item
  | none => (changeAt missing change path missing []).map (Item.table missing)
  | some (.table origin inner) =>
      if missing = .dotted ∧ origin = .header then none
      else (changeAt missing change path origin inner).map (Item.table origin)
  | some (.tables last earlier) =>
      (changeAt missing change path .header last).map fun last => Item.tables last earlier
  | some (.value _) => none

theorem changeAt_cons (missing origin : Origin) (change : Origin → Entries → Option Entries)
    (key : String) (path : List String) (entries : Entries) :
    changeAt missing change (key :: path) origin entries =
      (changedItem? missing change path (entries.lookup key)).map (put entries key) := by
  rw [changeAt]
  cases entries.lookup key with
  | none =>
      simp only [changedItem?]
      cases changeAt missing change path missing [] <;> rfl
  | some item =>
      cases item with
      | value value => rfl
      | tables last earlier =>
          simp only [changedItem?]
          cases changeAt missing change path .header last <;> rfl
      | table origin inner =>
          simp only [changedItem?]
          split
          · rfl
          · cases changeAt missing change path origin inner <;> rfl

theorem changeAt_actsOn (missing origin : Origin) (change : Origin → Entries → Option Entries)
    (key : String) (path : List String) :
    ActsOn key (changeAt missing change (key :: path) origin) :=
  ⟨put, places_put, _, changeAt_cons missing origin change key path⟩

end Entries

/-- The first name of a key. -/
def Key.top (key : Key) : String :=
  key.path.headD key.name

namespace Entries

-- What stands under the key itself after each of the three changes.

def assigned? (value : Value) : Option Item → Option Item
  | none => some (.value value)
  | some _ => none

def named? : Option Item → Option Item
  | none => some (.table .header [])
  | some (.table .implied inner) => some (.table .header inner)
  | some _ => none

def appended? : Option Item → Option Item
  | none => some (.tables [] [])
  | some (.tables last earlier) => some (.tables [] (last :: earlier))
  | some _ => none

theorem assign_actsOn (key : Key) (value : Value) :
    ActsOn key.top (assign · key.path key.name value) := by
  obtain ⟨path, name⟩ := key
  cases path with
  | cons first path => exact changeAt_actsOn .dotted .header _ first path
  | nil =>
      refine ⟨put, places_put, assigned? value, fun entries => ?_⟩
      simp only [assign, changeAt, Key.top, List.headD_nil]
      cases entries.lookup name <;> simp [assigned?]

theorem nameTable_actsOn (key : Key) : ActsOn key.top (nameTable · key.path key.name) := by
  obtain ⟨path, name⟩ := key
  cases path with
  | cons first path => exact changeAt_actsOn .implied .header _ first path
  | nil =>
      refine ⟨putLast, places_putLast, named?, fun entries => ?_⟩
      simp only [nameTable, changeAt, Key.top, List.headD_nil]
      split <;> simp [named?, *]

theorem appendTable_actsOn (key : Key) : ActsOn key.top (appendTable · key.path key.name) := by
  obtain ⟨path, name⟩ := key
  cases path with
  | cons first path => exact changeAt_actsOn .implied .header _ first path
  | nil =>
      refine ⟨put, places_put, appended?, fun entries => ?_⟩
      simp only [appendTable, changeAt, Key.top, List.headD_nil]
      split <;> simp [appended?, *]

end Entries

namespace Statement

/-- The first of the keys on the way to what a statement changes. -/
def top (current : List String) : Statement → String
  | assign key _ => current.headD key.top
  | table key | tables key => key.top

/-- What a statement makes of the entries of a document. -/
def change (current : List String) : Statement → Entries → Option Entries
  | assign key value, entries => Entries.changeAt .implied
      (fun _ table => Entries.assign table key.path key.name value) current .header entries
  | table key, entries => Entries.nameTable entries key.path key.name
  | tables key, entries => Entries.appendTable entries key.path key.name

/-- The table to which the keys behind a statement belong. -/
def next (current : List String) : Statement → List String
  | assign _ _ => current
  | table key | tables key => key.names

def isAssign : Statement → Bool
  | assign _ _ => true
  | table _ | tables _ => false

theorem change_of_header {statement : Statement} {current : List String}
    (header : statement.isAssign = false) (other : List String) :
    statement.change current = statement.change other := by
  cases statement with
  | assign key value => contradiction
  | table key => rfl
  | tables key => rfl

theorem next_of_header {statement : Statement} {current : List String}
    (header : statement.isAssign = false) (other : List String) :
    statement.next current = statement.next other := by
  cases statement with
  | assign key value => contradiction
  | table key => rfl
  | tables key => rfl

theorem change_actsOn (current : List String) (statement : Statement) :
    Entries.ActsOn (statement.top current) (statement.change current) := by
  cases statement with
  | table key => exact Entries.nameTable_actsOn key
  | tables key => exact Entries.appendTable_actsOn key
  | assign key value =>
      cases current with
      | nil => exact Entries.assign_actsOn key value
      | cons first path => exact Entries.changeAt_actsOn .implied .header _ first path

end Statement

theorem Document.add_eq (document : Document) (statement : Statement) :
    document.add statement = (statement.change document.current document.entries).map
      (⟨·, statement.next document.current⟩) := by
  cases statement <;> rw [Option.map_eq_bind] <;> rfl

/-- Some entries are others and an item more, under a name of its own. -/
def Entries.Gains (name : String) (item : Item) (plain extended : Entries) : Prop :=
  ∀ key, extended.lookup key = if key = name then some item else plain.lookup key

theorem Entries.ActsOn.gains {key name : String} {item : Item} {change : Entries → Option Entries}
    {plain extended after : Entries} (acts : ActsOn key change) (apart : key ≠ name)
    (gains : Gains name item plain extended) (changed : change plain = some after) :
    ∃ extendedAfter, change extended = some extendedAfter ∧
      Gains name item after extendedAfter := by
  obtain ⟨place, places, next, changes⟩ := acts
  rw [changes] at changed
  obtain ⟨new, isNew, rfl⟩ := Option.map_eq_some_iff.mp changed
  have sameFound : extended.lookup key = plain.lookup key := by rw [gains, if_neg apart]
  refine ⟨place extended key new, ?_, fun other => ?_⟩
  · rw [changes, sameFound, isNew, Option.map_some]
  · rw [places, places, gains other]
    by_cases isKey : other = key
    · rw [if_pos isKey, if_pos isKey, if_neg (isKey ▸ apart)]
    · rw [if_neg isKey, if_neg isKey]

theorem Entries.ActsOn.isSome_lookup {key name : String} {change : Entries → Option Entries}
    {entries after : Entries} (acts : ActsOn key change) (changed : change entries = some after)
    (given : key = name ∨ (entries.lookup name).isSome) : (after.lookup name).isSome := by
  obtain ⟨place, places, next, changes⟩ := acts
  rw [changes] at changed
  obtain ⟨new, isNew, rfl⟩ := Option.map_eq_some_iff.mp changed
  rw [places]
  split
  · rfl
  · exact given.resolve_left (Ne.symm ‹_›)

namespace Document

variable {document plain extended after final : Document} {statement : Statement}
  {statements : List Statement} {name : String} {item : Item}

theorem isSome_lookup_add (added : document.add statement = some after)
    (given : statement.top document.current = name ∨ (document.entries.lookup name).isSome) :
    (after.entries.lookup name).isSome := by
  rw [add_eq] at added
  obtain ⟨entries, changed, rfl⟩ := Option.map_eq_some_iff.mp added
  exact (statement.change_actsOn document.current).isSome_lookup changed given

theorem isSome_lookup_run (ran : statements.foldlM add document = some final)
    (given : (document.entries.lookup name).isSome) : (final.entries.lookup name).isSome := by
  induction statements generalizing document with
  | nil =>
      cases ran
      exact given
  | cons statement statements ih =>
      rw [List.foldlM_cons] at ran
      obtain ⟨after, added, ran⟩ := Option.bind_eq_some_iff.mp ran
      exact ih ran (isSome_lookup_add added (.inr given))

theorem gains_add (gains : Entries.Gains name item plain.entries extended.entries)
    (starts : extended.current = plain.current ∨ statement.isAssign = false)
    (added : plain.add statement = some after) (apart : statement.top plain.current ≠ name) :
    ∃ extendedAfter, extended.add statement = some extendedAfter ∧
      Entries.Gains name item after.entries extendedAfter.entries ∧
      extendedAfter.current = after.current := by
  rw [add_eq] at added
  obtain ⟨entries, changed, rfl⟩ := Option.map_eq_some_iff.mp added
  obtain ⟨extendedEntries, changedToo, gainsAfter⟩ :=
    (statement.change_actsOn plain.current).gains apart gains changed
  refine ⟨⟨extendedEntries, statement.next plain.current⟩, ?_, gainsAfter, rfl⟩
  rw [add_eq]
  rcases starts with sameTable | header
  · rw [sameTable, changedToo, Option.map_some]
  · rw [Statement.change_of_header header plain.current, changedToo,
      Statement.next_of_header header plain.current, Option.map_some]

/-- Statements that do not name a table go the same way with it and without it. They start in the
same table, or with a header. -/
theorem gains_run (gains : Entries.Gains name item plain.entries extended.entries)
    (starts : extended.current = plain.current ∨
      ∀ statement, statements.head? = some statement → statement.isAssign = false)
    (ran : statements.foldlM add plain = some final) (absent : final.entries.lookup name = none) :
    ∃ extendedFinal, statements.foldlM add extended = some extendedFinal ∧
      Entries.Gains name item final.entries extendedFinal.entries := by
  induction statements generalizing plain extended with
  | nil =>
      cases ran
      exact ⟨extended, rfl, gains⟩
  | cons statement statements ih =>
      rw [List.foldlM_cons] at ran
      obtain ⟨after, added, ranRest⟩ := Option.bind_eq_some_iff.mp ran
      have apart : statement.top plain.current ≠ name := by
        intro isName
        have found := isSome_lookup_run ranRest (isSome_lookup_add added (.inl isName))
        rw [absent] at found
        contradiction
      obtain ⟨extendedAfter, addedToo, gainsAfter, sameTable⟩ :=
        gains_add gains (starts.imp_right (· statement rfl)) added apart
      obtain ⟨extendedFinal, ranToo, gainsFinal⟩ := ih gainsAfter (.inl sameTable) ranRest
      refine ⟨extendedFinal, ?_, gainsFinal⟩
      rw [List.foldlM_cons]
      exact Option.bind_eq_some_iff.mpr ⟨extendedAfter, addedToo, ranToo⟩

theorem gains_assign {entries : Entries} {key : Key} {value : Value}
    (gains : Entries.Gains name (.table .header document.entries) entries extended.entries)
    (inTable : extended.current = [name]) (onTop : document.current = [])
    (added : document.add (.assign key value) = some after) :
    ∃ extendedAfter, extended.add (.assign key value) = some extendedAfter ∧
      Entries.Gains name (.table .header after.entries) entries extendedAfter.entries ∧
      extendedAfter.current = [name] ∧ after.current = [] := by
  rw [add_eq, onTop] at added
  obtain ⟨inner, changed, rfl⟩ := Option.map_eq_some_iff.mp added
  refine ⟨⟨extended.entries.put name (.table .header inner), [name]⟩, ?_, fun other => ?_, rfl, rfl⟩
  · rw [Statement.change, Entries.changeAt] at changed
    rw [add_eq, inTable, Statement.change, Entries.changeAt_cons, gains, if_pos rfl]
    simp only [Entries.changedItem?, Entries.changeAt, changed]
    rfl
  · rw [Entries.places_put, gains other]
    split <;> rfl

/-- The keys below a header make of its table what they make of a document on their own. -/
theorem gains_body {entries : Entries} {body : List Statement}
    (gains : Entries.Gains name (.table .header document.entries) entries extended.entries)
    (inTable : extended.current = [name]) (onTop : document.current = [])
    (assigns : ∀ statement ∈ body, statement.isAssign = true)
    (ran : body.foldlM add document = some final) :
    ∃ extendedFinal, body.foldlM add extended = some extendedFinal ∧
      Entries.Gains name (.table .header final.entries) entries extendedFinal.entries := by
  induction body generalizing document extended with
  | nil =>
      cases ran
      exact ⟨extended, rfl, gains⟩
  | cons statement body ih =>
      rw [List.foldlM_cons] at ran
      obtain ⟨after, added, ranRest⟩ := Option.bind_eq_some_iff.mp ran
      have isAssign := assigns statement (by simp)
      cases statement with
      | table key => contradiction
      | tables key => contradiction
      | assign key value =>
          obtain ⟨extendedAfter, addedToo, gainsAfter, inTableAfter, onTopAfter⟩ :=
            gains_assign gains inTable onTop added
          obtain ⟨extendedFinal, ranToo, gainsFinal⟩ := ih gainsAfter inTableAfter onTopAfter
            (fun statement member => assigns statement (List.mem_cons_of_mem _ member)) ranRest
          refine ⟨extendedFinal, ?_, gainsFinal⟩
          rw [List.foldlM_cons]
          exact Option.bind_eq_some_iff.mpr ⟨extendedAfter, addedToo, ranToo⟩

theorem gains_header (absent : document.entries.lookup name = none) :
    ∃ extended, document.add (.table ⟨[], name⟩) = some extended ∧
      Entries.Gains name (.table .header []) document.entries extended.entries ∧
      extended.current = [name] := by
  refine ⟨⟨document.entries.putLast name (.table .header []), [name]⟩, ?_, fun other => ?_, rfl⟩
  · rw [add_eq, Statement.change, Entries.nameTable, Entries.changeAt, absent]
    rfl
  · rw [Entries.places_putLast]

end Document

theorem lookup_entryValues (entries : Entries) (key : String) :
    (entryValues entries).lookup key = (entries.lookup key).map Item.toValue := by
  induction entries with
  | nil => rfl
  | cons entry rest ih =>
      obtain ⟨first, item⟩ := entry
      rw [entryValues, List.lookup_cons, List.lookup_cons, ih]
      split <;> rfl

theorem documentOf?_eq_some_iff {statements : List Statement} {entries : List (String × Value)} :
    documentOf? statements = some entries ↔
      ∃ document, statements.foldlM Document.add {} = some document ∧
        entryValues document.entries = entries := by
  simp only [documentOf?, bind, Option.bind_eq_some_iff, pure, Option.some.injEq]

/-- A table can be added to a document above any of its headers and at its end, under a name that
the document does not use. Nothing else changes. -/
theorem documentOf?_insert {upper lower body : List Statement} {name : String}
    {entries fields : List (String × Value)}
    (whole : documentOf? (upper ++ lower) = some entries) (absent : entries.lookup name = none)
    (headed : ∀ statement, lower.head? = some statement → statement.isAssign = false)
    (assigns : ∀ statement ∈ body, statement.isAssign = true)
    (held : documentOf? body = some fields) :
    ∃ extended, documentOf? (upper ++ .table ⟨[], name⟩ :: (body ++ lower)) = some extended ∧
      ∀ key, extended.lookup key =
        if key = name then some (.table fields) else entries.lookup key := by
  obtain ⟨plain, ran, rfl⟩ := documentOf?_eq_some_iff.mp whole
  obtain ⟨inner, ranBody, rfl⟩ := documentOf?_eq_some_iff.mp held
  rw [List.foldlM_append] at ran
  obtain ⟨middle, ranUpper, ranLower⟩ := Option.bind_eq_some_iff.mp ran
  have absentAfter : plain.entries.lookup name = none := by
    rw [lookup_entryValues, Option.map_eq_none_iff] at absent
    exact absent
  have absentBefore : middle.entries.lookup name = none := by
    by_contra found
    rw [← ne_eq, ← Option.isSome_iff_ne_none] at found
    simpa [absentAfter] using Document.isSome_lookup_run ranLower found
  -- The three parts are run one after the other; the table before a header does not matter to it.
  obtain ⟨opened, added, gainsOpened, inTable⟩ := Document.gains_header absentBefore
  obtain ⟨filled, ranFilled, gainsFilled⟩ :=
    Document.gains_body gainsOpened inTable rfl assigns ranBody
  obtain ⟨final, ranFinal, gainsFinal⟩ :=
    Document.gains_run gainsFilled (.inr headed) ranLower absentAfter
  refine ⟨entryValues final.entries, documentOf?_eq_some_iff.mpr ⟨final, ?_, rfl⟩, fun key => ?_⟩
  · simp only [List.foldlM_append, List.foldlM_cons, bind, ranUpper, Option.bind_some, added,
      ranFilled, ranFinal]
  · rw [lookup_entryValues, gainsFinal key, lookup_entryValues]
    split <;> rfl

end ModelLint.Toml
