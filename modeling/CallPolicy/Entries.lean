/-!
# Named entries

Entries under names of some kind, in the order in which they came: the files of a directory, the
keys of a table.  A look-up finds the first entry of a name.  Putting an entry replaces the one that
a look-up finds, where it stands, or adds one at the end.

## Termination

Both functions are structural in the list of entries.

## Main statement

* `find?_put` — a look-up after putting an entry.
-/

namespace CallPolicy.Entries

variable {ν α : Type} [DecidableEq ν]

/-- The entry with the given name. -/
def find? (name : ν) : List (ν × α) → Option α
  | [] => none
  | (n, value) :: rest => if n = name then some value else find? name rest

/-- The entries with `name` set to a value. -/
def put (name : ν) (value : α) : List (ν × α) → List (ν × α)
  | [] => [(name, value)]
  | (n, old) :: rest => if n = name then (name, value) :: rest else (n, old) :: put name value rest

/-- Putting an entry changes what its name leads to, and nothing else. -/
theorem find?_put (name name' : ν) (value : α) (entries : List (ν × α)) :
    find? name' (put name value entries) =
      if name' = name then some value else find? name' entries := by
  induction entries with
  | nil => simp [put, find?, eq_comm]
  | cons entry rest ih =>
    obtain ⟨n, old⟩ := entry
    by_cases hn : n = name
    · by_cases h : name' = name
      · simp [put, find?, hn, h]
      · simp [put, find?, hn, h, Ne.symm h]
    · by_cases h : n = name'
      · have hne : name' ≠ name := fun hc => hn (h.trans hc)
        simp [put, find?, h, hne]
      · simp [put, find?, hn, h, ih]

end CallPolicy.Entries
