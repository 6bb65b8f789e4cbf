import CallPolicy.Json.Number

/-!
# JSON values

A JSON text as a tree.  The members of an object keep their order and may repeat a name.  A string
is a text, except that an escape may stand for half of a surrogate pair; such a string is not a text
and is kept as `none`, since a reader that skips it does not mind.
-/

namespace CallPolicy

/-- A string of a JSON text; `none` if it holds half of a surrogate pair. -/
abbrev Json.Literal := Option String

/-- A JSON value. -/
inductive Json where
  | null
  | bool (value : Bool)
  | number (value : Json.Number)
  | string (value : Json.Literal)
  | array (items : List Json)
  | object (members : List (Json.Literal × Json))

namespace Json

instance : Inhabited Json := ⟨.null⟩

/-- A text as a JSON value. -/
def ofText (text : String) : Json :=
  .string (some text)

/-- A natural number as a JSON value. -/
def ofNat (n : Nat) : Json :=
  .number (.natural n)

/-- An object with the given members. -/
def ofMembers (members : List (String × Json)) : Json :=
  .object (members.map fun m => (some m.1, m.2))

end Json

end CallPolicy
