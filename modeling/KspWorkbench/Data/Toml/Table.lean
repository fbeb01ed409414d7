import KspWorkbench.Data.Datum

/-!
# TOML tables under construction

A document is put together from headers and dotted keys, and each table may be opened only in one
way. A table made on the way to a header may still get a header of its own; a table made by dotted
keys may only be extended by dotted keys; a value in braces or brackets is closed.
-/

namespace KspWorkbench.Toml

/-- How a table came into being: on the way to the table of a header, on the way to a value with a
dotted key, or by its own header or as the whole document. -/
inductive Origin where
  | passed
  | dotted
  | opened
  deriving DecidableEq, Repr

/-- A part of a document under construction. -/
inductive Node where
  | value (d : Datum)
  | table (origin : Origin) (entries : List (String × Node))
  -- made by headers in double brackets, the last table first.
  | tables (last : List (String × Node)) (before : List (List (String × Node)))
  deriving Inhabited

abbrev Entries := List (String × Node)

/-- The entries with `node` under `key`, in place of what was there. -/
def Entries.put (entries : Entries) (key : String) (node : Node) : Entries :=
  match entries with
  | [] => [(key, node)]
  | (k, n) :: rest => if k = key then (k, node) :: rest else (k, n) :: Entries.put rest key node

/-- Changes the table under a dotted path below `entries`. Tables on the path are made as needed;
those that are there must not have been opened by a header, of a list of tables the last one is
meant, and the last table of the path must be made by dotted keys. -/
def Entries.modifyDotted (entries : Entries) (path : List String)
    (change : Entries → Option Entries) : Option Entries :=
  match path with
  | [] => change entries
  | key :: path =>
    let below (origin : Origin) (inner : Entries) : Option Entries := do
      let inner ← Entries.modifyDotted inner path change
      return entries.put key (.table origin inner)
    match entries.lookup key with
    | none => below .dotted []
    | some (.table origin inner) =>
      if origin = .dotted ∨ (origin = .passed ∧ path ≠ []) then below origin inner else none
    | some (.tables last before) =>
      if path = [] then none
      else do
        let last ← Entries.modifyDotted last path change
        return entries.put key (.tables last before)
    | some (.value _) => none

/-- The entries with a value under a dotted key, which must be new. -/
def Entries.insertDotted (entries : Entries) (path : List String) (key : String) (d : Datum) :
    Option Entries :=
  entries.modifyDotted path fun inner =>
    if (inner.lookup key).isSome then none else some (inner ++ [(key, .value d)])

/-- Changes the table that a header stands below. Tables on the path are made as needed, and of a
list of tables the last one is meant. -/
def Entries.modifyHeader (entries : Entries) (path : List String)
    (change : Entries → Option Entries) : Option Entries :=
  match path with
  | [] => change entries
  | key :: path =>
    match entries.lookup key with
    | none => do
      let inner ← Entries.modifyHeader [] path change
      return entries.put key (.table .passed inner)
    | some (.table origin inner) => do
      let inner ← Entries.modifyHeader inner path change
      return entries.put key (.table origin inner)
    | some (.tables last before) => do
      let last ← Entries.modifyHeader last path change
      return entries.put key (.tables last before)
    | some (.value _) => none

/-- Opens the table of a header, which must be new or made on the way to another. -/
def Entries.openTable (entries : Entries) (path : List String) (key : String) : Option Entries :=
  entries.modifyHeader path fun inner =>
    match inner.lookup key with
    | none => some (inner ++ [(key, .table .opened [])])
    | some (.table .passed below) => some (inner.put key (.table .opened below))
    | some _ => none

/-- Adds a table to the list of a header in double brackets. -/
def Entries.appendTable (entries : Entries) (path : List String) (key : String) : Option Entries :=
  entries.modifyHeader path fun inner =>
    match inner.lookup key with
    | none => some (inner ++ [(key, .tables [] [])])
    | some (.tables last before) => some (inner.put key (.tables [] (last :: before)))
    | some _ => none

mutual

def Node.toDatum : Node → Datum
  | .value d => d
  | .table _ entries => .record (entriesToFields entries)
  | .tables last before => .list (listToData before ++ [.record (entriesToFields last)])

def entriesToFields : List (String × Node) → List (String × Datum)
  | [] => []
  | (key, node) :: rest => (key, node.toDatum) :: entriesToFields rest

/-- The tables of a list, given last first, in order. -/
def listToData : List (List (String × Node)) → List Datum
  | [] => []
  | entries :: rest => listToData rest ++ [.record (entriesToFields entries)]

end

end KspWorkbench.Toml
