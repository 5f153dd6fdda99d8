/-
Trees of tables under construction.

A table is opened once: by a header, by dotted keys, or as a value. A header may also give entries
to a table that longer headers only implied; dotted keys may go on in a table that dotted keys made.
Headers in double brackets add tables to an array, and its last table stands for the array in what
follows.
-/
import CodeCache.Toml.Value

namespace CodeCache.Toml

/-- how a table came to be -/
inductive Origin where
  /-- a longer header leads through it -/
  | implied
  /-- dotted keys lead through it -/
  | dotted
  /-- a header names it -/
  | headed
deriving DecidableEq, Repr

inductive Tree where
  /-- a finished value -/
  | value (v : Value)
  | table (origin : Origin) (entries : List (Text × Tree))
  /-- the tables of an array, the last of them still open -/
  | tables (finished : List (List (Text × Tree))) (last : List (Text × Tree))
deriving Repr, Inhabited

/-- the entries of a table -/
abbrev Entries := List (Text × Tree)

namespace Entries

/-- the entries with another value at a key, at its place if it is there -/
def set (key : Text) (tree : Tree) : Entries → Entries
  | [] => [(key, tree)]
  | (k, t) :: rest => if k = key then (key, tree) :: rest else (k, t) :: set key tree rest

/-- puts a value at a path of dotted keys -/
def insert? (value : Value) : List Text → Entries → Option Entries
  | [], _ => none
  | [key], entries =>
    if (List.lookup key entries).isSome then none else some (set key (.value value) entries)
  | key :: rest, entries =>
    match List.lookup key entries with
    | none => (insert? value rest []).map fun sub => set key (.table .dotted sub) entries
    | some (.table .dotted sub) =>
      (insert? value rest sub).map fun sub => set key (.table .dotted sub) entries
    | some (.table .implied sub) =>
      if rest.length = 1 then none
      else (insert? value rest sub).map fun sub => set key (.table .implied sub) entries
    | some (.tables finished last) =>
      if rest.length = 1 then none
      else (insert? value rest last).map fun last => set key (.tables finished last) entries
    | some _ => none

/-- opens the table a header names -/
def openTable? : List Text → Entries → Option Entries
  | [], _ => none
  | [key], entries =>
    match List.lookup key entries with
    | none => some (set key (.table .headed []) entries)
    | some (.table .implied sub) => some (set key (.table .headed sub) entries)
    | some _ => none
  | key :: rest, entries =>
    match List.lookup key entries with
    | none => (openTable? rest []).map fun sub => set key (.table .implied sub) entries
    | some (.table origin sub) =>
      (openTable? rest sub).map fun sub => set key (.table origin sub) entries
    | some (.tables finished last) =>
      (openTable? rest last).map fun last => set key (.tables finished last) entries
    | some (.value _) => none

/-- opens a new table in the array that a header in double brackets names -/
def openItem? : List Text → Entries → Option Entries
  | [], _ => none
  | [key], entries =>
    match List.lookup key entries with
    | none => some (set key (.tables [] []) entries)
    | some (.tables finished last) => some (set key (.tables (finished ++ [last]) []) entries)
    | some _ => none
  | key :: rest, entries =>
    match List.lookup key entries with
    | none => (openItem? rest []).map fun sub => set key (.table .implied sub) entries
    | some (.table origin sub) =>
      (openItem? rest sub).map fun sub => set key (.table origin sub) entries
    | some (.tables finished last) =>
      (openItem? rest last).map fun last => set key (.tables finished last) entries
    | some (.value _) => none

/-- puts a value at a path of dotted keys in the table that the last header opened -/
def insertUnder? (keys : List Text) (value : Value) : List Text → Entries → Option Entries
  | [], entries => insert? value keys entries
  | key :: header, entries =>
    match List.lookup key entries with
    | some (.table origin sub) =>
      (insertUnder? keys value header sub).map fun sub => set key (.table origin sub) entries
    | some (.tables finished last) =>
      (insertUnder? keys value header last).map fun last => set key (.tables finished last) entries
    | _ => none

end Entries

/-! ## Finished trees -/

mutual

def Tree.toValue : Tree → Value
  | .value v => v
  | .table _ entries => .table (entriesToValues entries)
  | .tables finished last => .array (tablesToValues finished ++ [.table (entriesToValues last)])

def entriesToValues : List (Text × Tree) → List (Text × Value)
  | [] => []
  | (key, tree) :: rest => (key, tree.toValue) :: entriesToValues rest

def tablesToValues : List (List (Text × Tree)) → List Value
  | [] => []
  | entries :: rest => .table (entriesToValues entries) :: tablesToValues rest

end

end CodeCache.Toml
