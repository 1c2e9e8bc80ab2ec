/-!
Documents of tables and values, with the rules on what may be defined after what. A table is defined
by its header once; a header or a dotted key may pass through tables that are only implied; what
stands in braces or brackets is closed.
-/

namespace Strongroom.Toml

inductive Origin
  | header
  /-- By the header of a table below it. -/
  | implied
  /-- By a key with dots. -/
  | dotted
  /-- In braces. -/
  | closed
deriving DecidableEq, Repr

inductive Value
  | boolean (b : Bool)
  | integer (n : Int)
  | float
  | text
  | moment
  | array (items : List Value)
  | table (origin : Origin) (entries : List (String × Value))
  /-- Tables that share a header, of which the last is open. -/
  | tables (items : List (List (String × Value)))
deriving Repr

abbrev Entries := List (String × Value)

namespace Entries

def replace (e : Entries) (key : String) (v : Value) : Entries :=
  e.map fun entry => if entry.1 = key then (key, v) else entry

def put (key : String) (v : Value) : (path : List String) → Entries → Option Entries
  | [], e => if (e.lookup key).isSome then none else some (e ++ [(key, v)])
  | k :: path, e =>
    match e.lookup k with
    | none => (put key v path []).map fun inner => e ++ [(k, .table .dotted inner)]
    | some (.table .dotted inner) =>
      (put key v path inner).map fun inner => e.replace k (.table .dotted inner)
    | some (.table .implied inner) =>
      if path.isEmpty then none
      else (put key v path inner).map fun inner => e.replace k (.table .implied inner)
    | some (.tables items) =>
      if path.isEmpty then none
      else (put key v path (items.getLastD [])).map fun last =>
        e.replace k (.tables (items.dropLast ++ [last]))
    | some _ => none

/-- Does `f` in the table that the path of a header leads to; what is missing on the way is implied.
-/
def within {α : Type} (f : Entries → Option (α × Entries)) :
    (path : List String) → Entries → Option (α × Entries)
  | [], e => f e
  | k :: path, e =>
    match e.lookup k with
    | none => (within f path []).map fun (a, inner) => (a, e ++ [(k, .table .implied inner)])
    | some (.table .closed _) => none
    | some (.table origin inner) =>
      (within f path inner).map fun (a, inner) => (a, e.replace k (.table origin inner))
    | some (.tables items) =>
      (within f path (items.getLastD [])).map fun (a, last) =>
        (a, e.replace k (.tables (items.dropLast ++ [last])))
    | some _ => none

def openTable (key : String) (e : Entries) : Option (Entries × Entries) :=
  match e.lookup key with
  | none => some ([], e)
  | some (.table .implied inner) => some (inner, e.filter (·.1 ≠ key))
  | some _ => none

def closeTable (key : String) (inner : Entries) (e : Entries) : Option (Unit × Entries) :=
  some ((), e ++ [(key, .table .header inner)])

def openShared (key : String) (e : Entries) : Option (Entries × Entries) :=
  match e.lookup key with
  | none => some ([], e ++ [(key, .tables [])])
  | some (.tables _) => some ([], e)
  | some _ => none

def closeShared (key : String) (inner : Entries) (e : Entries) : Option (Unit × Entries) :=
  match e.lookup key with
  | some (.tables items) => some ((), e.replace key (.tables (items ++ [inner])))
  | _ => none

end Entries

/-- A document up to some line: what is finished, and the table whose entries come next. -/
structure Document where
  root : Entries
  path : List String
  shared : Bool
  current : Entries

namespace Document

def empty : Document := ⟨[], [], false, []⟩

def finish (d : Document) : Option Entries :=
  match d.path.getLast? with
  | none => some d.current
  | some key =>
    let close := if d.shared then Entries.closeShared key d.current
      else Entries.closeTable key d.current
    (d.root.within close d.path.dropLast).map (·.2)

def openHeader (d : Document) (shared : Bool) (path : List String) : Option Document := do
  let root ← d.finish
  let key ← path.getLast?
  let start := if shared then Entries.openShared key else Entries.openTable key
  let (current, root) ← root.within start path.dropLast
  return ⟨root, path, shared, current⟩

def put (d : Document) (path : List String) (v : Value) : Option Document := do
  let key ← path.getLast?
  let current ← d.current.put key v path.dropLast
  return { d with current }

end Document

end Strongroom.Toml
