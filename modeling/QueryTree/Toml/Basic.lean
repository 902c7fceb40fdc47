/-!
# Configuration documents

The values of a TOML document. Numbers that are no integers and dates are only recognized, not kept:
no setting has such a value.
-/

namespace QueryTree

/-- A value of a document. Of doubles and timestamps only the kind is kept. -/
inductive Toml where
  | text (s : String)
  | integer (n : Int64)
  | float
  | boolean (b : Bool)
  | dateTime
  | array (items : List Toml)
  | table (entries : List (String × Toml))
deriving Inhabited

namespace Toml

/-! ## Tables under construction

Tables grow line by line, and how a table came about decides what may be added to it later. -/

/-- How a table came about. -/
inductive Origin where
  /-- A header of its own. -/
  | header
  /-- A header of a table below it. -/
  | implied
  /-- The front of a dotted key. -/
  | dotted
deriving DecidableEq, Repr

/-- An entry of a table under construction. -/
inductive Node where
  /-- A finished value; nothing can be added to it. -/
  | value (v : Toml)
  | table (origin : Origin) (entries : List (String × Node))
  /-- Tables under one repeated header, of which the last one is open. -/
  | tables (items : List (List (String × Node)))
deriving Inhabited

/-- The entries of a table, by key. -/
abbrev Entries := List (String × Node)

/-- Replace the entry of a key, or add one. -/
def alter (key : String) (f : Option Node → Option Node) : Entries → Option Entries
  | [] => (f none).map fun node => [(key, node)]
  | (k, node) :: rest =>
    if k == key then (f (some node)).map fun node => (k, node) :: rest
    else (alter key f rest).map fun rest => (k, node) :: rest

/-- Change the last element of a list that has one. -/
def alterLast {α : Type} (f : α → Option α) : List α → Option (List α)
  | [] => none
  | [x] => (f x).map fun x => [x]
  | x :: rest => (alterLast f rest).map fun rest => x :: rest

/-- Change the table at the end of a header's path. Tables on the way are opened or made. -/
def underHeader (f : Entries → Option Entries) : List String → Entries → Option Entries
  | [], entries => f entries
  | key :: path, entries =>
    entries |> alter key fun
      | none => (underHeader f path []).map (.table .implied)
      | some (.value _) => none
      | some (.table origin inner) => (underHeader f path inner).map (.table origin)
      | some (.tables items) => (alterLast (underHeader f path) items).map .tables

/-- Change the table at the end of the front of a dotted key. A table with a header of its own is
closed to dotted keys, and the last table on the way must have come about by dotted keys. -/
def underDots (f : Entries → Option Entries) : List String → Entries → Option Entries
  | [], entries => f entries
  | key :: path, entries =>
    entries |> alter key fun
      | none => (underDots f path []).map (.table .dotted)
      | some (.value _) => none
      | some (.table origin inner) =>
        if origin = .header || (path.isEmpty && origin ≠ .dotted) then none
        else (underDots f path inner).map (.table origin)
      | some (.tables items) =>
        if path.isEmpty then none else (alterLast (underDots f path) items).map .tables

/-- Open a table by its header. A table may be opened once. -/
def openTable (path : List String) (key : String) (root : Entries) : Option Entries :=
  root |> underHeader (alter key fun
    | none => some (.table .header [])
    | some (.table .implied inner) => some (.table .header inner)
    | some _ => none) path

/-- Open a further table under a repeated header. -/
def openElement (path : List String) (key : String) (root : Entries) : Option Entries :=
  root |> underHeader (alter key fun
    | none => some (.tables [[]])
    | some (.tables items) => some (.tables (items ++ [[]]))
    | some _ => none) path

/-- Set a key that has no value yet, in the table at the end of a dotted path. -/
def assign (path : List String) (key : String) (v : Toml) (entries : Entries) : Option Entries :=
  entries |> underDots (alter key fun
    | none => some (.value v)
    | some _ => none) path

mutual

/-- The value of a finished entry. -/
def ofNode : Node → Toml
  | .value v => v
  | .table _ entries => .table (ofEntries entries)
  | .tables items => .array (ofElements items)

/-- The entries of a table as values. -/
def ofEntries : List (String × Node) → List (String × Toml)
  | [] => []
  | (key, node) :: rest => (key, ofNode node) :: ofEntries rest

/-- The tables under a repeated header as values. -/
def ofElements : List (List (String × Node)) → List Toml
  | [] => []
  | entries :: rest => .table (ofEntries entries) :: ofElements rest

end

end Toml

end QueryTree
