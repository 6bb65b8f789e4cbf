import CallPolicy.Entries

/-!
# TOML documents

The values of a TOML document, and the tables that its lines build up.

A table can be opened by a header, or come into being on the way to another one.  In the second case
it is *implicit*, and *dotted* if a dotted key led through it.  The rules about what may be opened
or extended once more are about these two marks:

* a key leads only through implicit tables, and may add to a table only if the key is dotted and the
  table too, or neither;
* a header opens a table that is new, or implicit and not dotted;
* a header of an array of tables adds a table to the array; a path through the array leads to its
  last table;
* what was given as a value is never extended, and no key is given twice.

## Termination

Updates are structural in the path, the reading of tables as values in the table.
-/

namespace CallPolicy.Toml

/-- A value. -/
inductive Value where
  | string (text : String)
  | integer (value : Int)
  /-- A number with a point or an exponent, or an infinity or no number at all, as it is written. -/
  | float (text : String)
  | boolean (value : Bool)
  /-- A date, a time or both, in their normal form. -/
  | moment (text : String)
  | array (items : List Value)
  | table (entries : List (String × Value))

mutual

/-- What a key of an unfinished table is bound to. -/
inductive Item where
  | value (value : Value)
  | table (table : Table)
  | tables (tables : List Table)

/-- An unfinished table. -/
structure Table where
  /-- No header has opened it. -/
  implicit : Bool
  /-- A dotted key led through it. -/
  dotted : Bool
  entries : List (String × Item)

end

namespace Table

/-- An empty table that a header or the document itself opens. -/
def opened : Table := ⟨false, false, []⟩

instance : Inhabited Table := ⟨opened⟩

/-- The entries without a key. -/
def erase (key : String) (entries : List (String × Item)) : List (String × Item) :=
  entries.filter fun e => e.1 != key

/-- The table with `f` applied where a path leads; tables that are missing on the way are added as
implicit ones. -/
def update (dotted : Bool) (f : Table → Option Table) : List String → Table → Option Table
  | [], t => f t
  | key :: path, t =>
    match Entries.find? key t.entries with
    | none => (update dotted f path ⟨true, dotted, []⟩).map fun child =>
      { t with entries := Entries.put key (.table child) t.entries }
    | some (.value _) => none
    -- a dotted key stays out of tables that a header has opened; a header may pass through them
    | some (.table child) =>
      if dotted && !child.implicit then none
      else (update dotted f path child).map fun child =>
        { t with entries := Entries.put key (.table child) t.entries }
    | some (.tables tables) =>
      match tables.getLast? with
      | none => none
      | some last => (update dotted f path last).map fun last =>
        { t with entries := Entries.put key (.tables (tables.dropLast ++ [last])) t.entries }

/-- The table with a value under a dotted key, given as the path to the last part and that part. -/
def addValue (path : List String) (key : String) (value : Value) : Table → Option Table :=
  update true (fun t =>
    -- a plain key belongs to a table that is not dotted, a dotted key ends in one that is
    if t.dotted == path.isEmpty then none
    else
      match Entries.find? key t.entries with
      | some _ => none
      | none => some { t with entries := Entries.put key (.value value) t.entries }) path

/-- The table with values under dotted keys. -/
def addValues (pairs : List (List String × String × Value)) (t : Table) : Option Table :=
  pairs.foldlM (fun t (path, key, value) => t.addValue path key value) t

/-- The table with a table opened by a header, which gets values. -/
def addTable (path : List String) (key : String) (pairs : List (List String × String × Value)) :
    Table → Option Table :=
  update false (fun parent => do
    let base ←
      match Entries.find? key parent.entries with
      | none => some opened
      | some (.table t) =>
        if t.implicit && !t.dotted then some { t with implicit := false } else none
      | some _ => none
    let filled ← base.addValues pairs
    some { parent with entries := Entries.put key (.table filled) (erase key parent.entries) }) path

/-- The table with one more table in an array of tables, which gets values. -/
def addToArray (path : List String) (key : String) (pairs : List (List String × String × Value)) :
    Table → Option Table :=
  update false (fun parent => do
    let tables ←
      match Entries.find? key parent.entries with
      | none => some []
      | some (.tables tables) => some tables
      | some _ => none
    let filled ← opened.addValues pairs
    let item := Item.tables (tables ++ [filled])
    some { parent with entries := Entries.put key item parent.entries }) path

end Table

/-! ## Finished tables -/

mutual

/-- An item as a value. -/
def Item.toValue : Item → Value
  | .value value => value
  | .table t => t.toValue
  | .tables tables => .array (Table.listValues tables)

/-- A table as a value. -/
def Table.toValue : Table → Value
  | ⟨_, _, entries⟩ => .table (Item.entryValues entries)

/-- Entries as entries of a value. -/
def Item.entryValues : List (String × Item) → List (String × Value)
  | [] => []
  | (key, item) :: rest => (key, item.toValue) :: Item.entryValues rest

/-- Tables as values. -/
def Table.listValues : List Table → List Value
  | [] => []
  | t :: rest => t.toValue :: Table.listValues rest

end

end CallPolicy.Toml
