import ContextDiagram.Toml.Value

namespace ContextDiagram.Toml

/-- How a table came to be: as a parent of a header's table, by its own header, or as a parent of a
dotted key. -/
inductive Origin
  | implied
  | header
  | dotted
deriving DecidableEq, Repr

/-- What stands under a key so far. A table given as a value does not grow; of an array of tables
only the last one does. -/
inductive Item
  | value (v : Value)
  | table (origin : Origin) (entries : List (String × Item))
  | tables (earlier : List (List (String × Item))) (last : List (String × Item))

abbrev Entries := List (String × Item)

def alter (key : String) (f : Option Item → Option Item) : Entries → Option Entries
  | [] => (f none).map fun item => [(key, item)]
  | (name, item) :: rest =>
    if name == key then (f (some item)).map fun item => (name, item) :: rest
    else (alter key f rest).map ((name, item) :: ·)

def putNew (item : Item) : Option Item → Option Item
  | none => some item
  | some _ => none

/-- A value under a dotted key. The tables on the way to it come to be where they are missing, and
all of them count as tables of dotted keys from then on; a table with a header of its own is never
one. The last of an array of tables may stand on the way, but not as the table of the value. -/
def assign (v : Value) : List String → Entries → Option Entries
  | [] => fun _ => none
  | [key] => alter key (putNew (.value v))
  | key :: more => alter key fun
    | none => (assign v more []).map (.table .dotted)
    | some (.table .header _) => none
    | some (.table _ entries) => (assign v more entries).map (.table .dotted)
    | some (.tables earlier last) =>
      if more.length = 1 then none else (assign v more last).map (.tables earlier)
    | some (.value _) => none

/-- A change to the table of a header, whose parents come to be where they are missing. -/
def within (f : Entries → Option Entries) : List String → Entries → Option Entries
  | [] => f
  | key :: path => alter key fun
    | none => (within f path []).map (.table .implied)
    | some (.table origin entries) => (within f path entries).map (.table origin)
    | some (.tables earlier last) => (within f path last).map (.tables earlier)
    | some (.value _) => none

def openTable : Option Item → Option Item
  | none => some (.table .header [])
  | some (.table .implied entries) => some (.table .header entries)
  | _ => none

def openElement : Option Item → Option Item
  | none => some (.tables [] [])
  | some (.tables earlier last) => some (.tables (earlier ++ [last]) [])
  | _ => none

structure Draft where
  entries : Entries := []
  current : List String := []

namespace Draft

def insert (draft : Draft) (key : List String) (v : Value) : Option Draft := do
  return { draft with entries := ← within (assign v key) draft.current draft.entries }

def enter (draft : Draft) (f : Option Item → Option Item) (path : List String) : Option Draft := do
  let key ← path.getLast?
  return ⟨← within (alter key f) path.dropLast draft.entries, path⟩

end Draft

mutual

def Item.close : Item → Value
  | .value v => v
  | .table _ entries => .table (closeEntries entries)
  | .tables earlier last => .array (closeTables earlier ++ [.table (closeEntries last)])

def closeEntries : List (String × Item) → Table
  | [] => []
  | (key, item) :: rest => (key, item.close) :: closeEntries rest

def closeTables : List (List (String × Item)) → List Value
  | [] => []
  | entries :: rest => .table (closeEntries entries) :: closeTables rest

end

end ContextDiagram.Toml
