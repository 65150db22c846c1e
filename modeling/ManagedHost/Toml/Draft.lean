import ManagedHost.Toml.Value

/-!
# Tables under construction

A document states its tables piece by piece: a header opens a table, double brackets open the next
table of an array, a dotted key makes the tables on its way.  A draft remembers how each table came
to be, because that decides what may still be added to it.
-/

namespace ManagedHost

namespace Toml

/-- How a table came to be. -/
inductive Origin where
  /-- It has a header of its own. -/
  | header
  /-- Headers of inner tables passed through it. -/
  | implied
  /-- A dotted key passed through it. -/
  | dotted
deriving DecidableEq, Inhabited

/-- A value under construction. -/
inductive Draft where
  /-- A value to which nothing can be added. -/
  | closed (v : Value)
  | table (origin : Origin) (entries : List (String × Draft))
  /-- An array of tables, of which only the last can grow. -/
  | tables (earlier : List Value) (last : List (String × Draft))

instance : Inhabited Draft := ⟨.table .header []⟩

mutual

/-- The value that a draft has come to. -/
def Draft.value : Draft → Value
  | .closed v => v
  | .table _ entries => .table (finished entries)
  | .tables earlier last => .array (earlier ++ [.table (finished last)])

/-- The values that drafts have come to. -/
def finished : List (String × Draft) → List (String × Value)
  | [] => []
  | (key, draft) :: rest => (key, draft.value) :: finished rest

end

/-- Change the table that the path of a header leads to.  Missing tables on the way are made; in an
array of tables the way goes through the last. -/
def under (change : Entries Draft → Option (Entries Draft)) :
    List String → Entries Draft → Option (Entries Draft)
  | [], entries => change entries
  | key :: path, entries =>
    match Entries.get? key entries with
    | none =>
      (under change path []).map fun inner => Entries.put key (.table .implied inner) entries
    | some (.table origin inner) =>
      (under change path inner).map fun inner => Entries.put key (.table origin inner) entries
    | some (.tables earlier last) =>
      (under change path last).map fun last => Entries.put key (.tables earlier last) entries
    | some (.closed _) => none

/-- Open the table `key`.  It must be new, or only implied so far. -/
def openTable (key : String) (entries : Entries Draft) : Option (Entries Draft) :=
  match Entries.get? key entries with
  | none => some (Entries.put key (.table .header []) entries)
  | some (.table .implied inner) => some (Entries.put key (.table .header inner) entries)
  | _ => none

/-- Open the next table of the array `key`. -/
def openItem (key : String) (entries : Entries Draft) : Option (Entries Draft) :=
  match Entries.get? key entries with
  | none => some (Entries.put key (.tables [] []) entries)
  | some (.tables earlier last) =>
    some (Entries.put key (.tables (earlier ++ [.table (finished last)]) []) entries)
  | _ => none

/-- Give the key at the end of a dotted path a value.  The key must be new.  The path must not enter
a table with a header, and its last table must be one of dotted keys; `open_` says whether the table
at hand takes a key of its own. -/
def assign (value : Value) : Bool → List String → Entries Draft → Option (Entries Draft)
  | _, [], _ => none
  | open_, [key], entries =>
    if open_ && (Entries.get? key entries).isNone then
      some (Entries.put key (.closed value) entries)
    else none
  | _, key :: path, entries =>
    match Entries.get? key entries with
    | none =>
      (assign value true path []).map fun inner => Entries.put key (.table .dotted inner) entries
    | some (.table .header _) => none
    | some (.table origin inner) =>
      (assign value (origin == .dotted) path inner).map fun inner =>
        Entries.put key (.table origin inner) entries
    | some (.tables earlier last) =>
      (assign value false path last).map fun last => Entries.put key (.tables earlier last) entries
    | some (.closed _) => none

/-- A statement of a document. -/
inductive Statement where
  /-- The header of a table. -/
  | table (path : List String) (key : String)
  /-- The header of the next table of an array. -/
  | item (path : List String) (key : String)
  /-- A value for a dotted key. -/
  | entry (keys : List String) (value : Value)

/-- A document under construction: the path of the open table, and all tables. -/
structure Builder where
  path : List String := []
  entries : Entries Draft := []

/-- Add a statement to a document. -/
def Builder.add (b : Builder) : Statement → Option Builder
  | .table path key => (under (openTable key) path b.entries).map (⟨path ++ [key], ·⟩)
  | .item path key => (under (openItem key) path b.entries).map (⟨path ++ [key], ·⟩)
  | .entry keys value => (under (assign value true keys) b.path b.entries).map (⟨b.path, ·⟩)

/-- Add statements to a document, one after the other. -/
def Builder.addAll (b : Builder) : List Statement → Option Builder
  | [] => some b
  | s :: rest => (b.add s).bind (·.addAll rest)

end Toml

end ManagedHost
