import ModelLint.Toml.Value

namespace ModelLint.Toml

/-! The tables of a document.

A document is a list of statements. A statement may add to a table that an earlier
one began, and how that table came about decides whether it may: a table that a
header names is never named by another header, and a table that dotted keys began
is only extended by dotted keys. -/

/-- How a table came about. -/
inductive Origin where
  /-- A header names it, or it is an element of an array of tables. -/
  | header
  /-- It lies on the way to a table that a header names. -/
  | implied
  /-- It lies on the way to a dotted key. -/
  | dotted
deriving DecidableEq, Repr, Inhabited

/-- What stands under a key while a document is read. -/
inductive Item where
  | value (value : Value)
  | table (origin : Origin) (entries : List (String × Item))
  /-- An array of tables, the last one first. -/
  | tables (last : List (String × Item)) (earlier : List (List (String × Item)))
deriving Repr, Inhabited

abbrev Entries := List (String × Item)

mutual

def Item.toValue : Item → Value
  | .value value => value
  | .table _ entries => .table (entryValues entries)
  | .tables last earlier => .array (tableValues earlier [.table (entryValues last)])

def entryValues : List (String × Item) → List (String × Value)
  | [] => []
  | (key, item) :: rest => (key, item.toValue) :: entryValues rest

/-- The values of some tables, given last one first, before those of `later`. -/
def tableValues : List (List (String × Item)) → (later : List Value) → List Value
  | [], later => later
  | entries :: rest, later => tableValues rest (.table (entryValues entries) :: later)

end

namespace Entries

/-- Puts an item in the place of the one under its key, or else at the end. -/
def put (entries : Entries) (key : String) (item : Item) : Entries :=
  if (entries.lookup key).isSome then
    entries.map fun entry => if entry.1 = key then (key, item) else entry
  else entries ++ [(key, item)]

/-- Changes the table at the end of a path, given how that table came about. Tables
that are missing on the way get the given origin. Dotted keys do not lead through a
table that a header names, and nothing leads through a value. -/
def changeAt (missing : Origin) (change : Origin → Entries → Option Entries) :
    (path : List String) → (origin : Origin) → Entries → Option Entries
  | [], origin, entries => change origin entries
  | key :: path, _, entries => do
      let item ← match entries.lookup key with
        | none => (changeAt missing change path missing []).map (Item.table missing)
        | some (.table origin inner) =>
            if missing = .dotted ∧ origin = .header then none
            else (changeAt missing change path origin inner).map (Item.table origin)
        | some (.tables last earlier) =>
            (changeAt missing change path .header last).map fun last => Item.tables last earlier
        | some (.value _) => none
      return put entries key item

/-- Gives a new key in the table at the end of a path a value. -/
def assign (entries : Entries) (path : List String) (key : String) (value : Value) :
    Option Entries :=
  changeAt .dotted (fun origin table =>
    if (path = [] ∨ origin = .dotted) ∧ (table.lookup key).isNone then
      some (table.put key (.value value))
    else none) path .header entries

/-- Puts an item at the end, and not in the place of the one under its key. -/
def putLast (entries : Entries) (key : String) (item : Item) : Entries :=
  entries.filter (·.1 ≠ key) ++ [(key, item)]

/-- Names a table by a header. It is the last one then in the table around it. -/
def nameTable (entries : Entries) (path : List String) (key : String) : Option Entries :=
  changeAt .implied (fun _ table =>
    match table.lookup key with
    | none => some (table.putLast key (.table .header []))
    | some (.table .implied inner) => some (table.putLast key (.table .header inner))
    | some _ => none) path .header entries

/-- Adds an element to an array of tables. -/
def appendTable (entries : Entries) (path : List String) (key : String) : Option Entries :=
  changeAt .implied (fun _ table =>
    match table.lookup key with
    | none => some (table.put key (.tables [] []))
    | some (.tables last earlier) => some (table.put key (.tables [] (last :: earlier)))
    | some _ => none) path .header entries

end Entries

/-- A key: the names on the way to it, and its own. -/
structure Key where
  path : List String
  name : String
deriving DecidableEq, Repr, Inhabited

def Key.names (key : Key) : List String :=
  key.path ++ [key.name]

/-- The table of some keys and their values. -/
def tableOf? (pairs : List (Key × Value)) : Option Value := do
  let entries ← pairs.foldlM (fun entries (key, value) =>
    Entries.assign entries key.path key.name value) []
  return .table (entryValues entries)

inductive Statement where
  | assign (key : Key) (value : Value)
  | table (key : Key)
  | tables (key : Key)
deriving Repr, Inhabited

/-- A document read so far. -/
structure Document where
  entries : Entries := []
  /-- The table to which the next keys belong. -/
  current : List String := []
deriving Repr, Inhabited

def Document.add (document : Document) : Statement → Option Document
  | .assign key value => do
      let entries ← Entries.changeAt .implied
        (fun _ table => Entries.assign table key.path key.name value)
        document.current .header document.entries
      return { document with entries := entries }
  | .table key => do
      return ⟨← Entries.nameTable document.entries key.path key.name, key.names⟩
  | .tables key => do
      return ⟨← Entries.appendTable document.entries key.path key.name, key.names⟩

/-- The top table of a document. -/
def documentOf? (statements : List Statement) : Option (List (String × Value)) := do
  let document ← statements.foldlM Document.add {}
  return entryValues document.entries

end ModelLint.Toml
