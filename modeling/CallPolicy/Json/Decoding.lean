import CallPolicy.Json.Basic

/-!
# Decoding JSON values

The rules by which a JSON value is read as data.

* A record is an object, whose members may come in any order, or an array of the fields in the order
  of declaration.  A known field must not be repeated; unknown members are ignored.  A missing field
  is an error unless it has a default.
* A choice is an object with one member, named for the alternative.
* A natural number is written in plain digits and fits a 64-bit word.
* At most `maxDepth` arrays and objects may be open at a time.  A decoder gets the number of those
  that may still be opened; what it ignores does not count.
* Some members are read ahead before it is known what they are for.  What is read ahead counts as a
  whole, whether it is used or not: see `fits`.

A look at a field gathers all members of its name, so the order of members makes no difference.
-/

namespace CallPolicy.Json

/-- The number of arrays and objects that may be open at a time. -/
def maxDepth : Nat := 127

/-- A value as text. -/
def text? : Json → Option String
  | .string value => value
  | _ => none

/-- A value as a natural number. -/
def nat? : Json → Option Nat
  | .number (.natural n) => if n ≤ Decimal.maxWord then some n else none
  | _ => none

/-- A value as a truth value. -/
def bool? : Json → Option Bool
  | .bool value => some value
  | _ => none

/-- A value that may be `null`. -/
def optional? {α : Type} (decode : Json → Option α) : Json → Option (Option α)
  | .null => some none
  | value => (decode value).map some

/-- The members of an object. -/
abbrev Members := List (Literal × Json)

/-- The values of all members with the given name. -/
def valuesOf (name : String) (members : Members) : List Json :=
  members.filterMap fun m => if m.1 = some name then some m.2 else none

/-- A field that must be there. -/
def required {α : Type} (decode : Json → Option α) (name : String) (members : Members) : Option α :=
  match valuesOf name members with
  | [value] => decode value
  | _ => none

/-- A field with a default. -/
def defaulted {α : Type} (default : α) (decode : Json → Option α) (name : String)
    (members : Members) : Option α :=
  match valuesOf name members with
  | [] => some default
  | [value] => decode value
  | _ => none

/-- The members of an object whose names are texts. -/
def namedMembers? (members : Members) : Option Members :=
  if members.all fun m => m.1.isSome then some members else none

/-- The members of a record with the given fields, whichever way it is written. -/
def fieldsOf (names : List String) : Json → Option Members
  | .object members => namedMembers? members
  | .array items =>
    if items.length ≤ names.length then some ((names.map some).zip items) else none
  | _ => none

/-- A value that can be read ahead with `depth` containers left to open: no more are open at a time,
every number is in range and every string is a text. -/
def fits : Nat → Json → Bool
  | _, .null => true
  | _, .bool _ => true
  | _, .number value => value.inRange
  | _, .string value => value.isSome
  | 0, .array _ => false
  | 0, .object _ => false
  | depth + 1, .array items => items.all (fits depth)
  | depth + 1, .object members => members.all fun m => m.1.isSome && fits depth m.2

/-- The members other than the named ones, each of which can be read ahead. -/
def readAhead? (depth : Nat) (own : List String) (members : Members) : Option Members :=
  let others := members.filter fun m => !own.any fun name => m.1 == some name
  if others.all fun m => fits depth m.2 then some others else none

/-- A list of values. -/
def listOf {α : Type} (decode : Nat → Json → Option α) : Nat → Json → Option (List α)
  | depth + 1, .array items => items.mapM (decode depth)
  | _, _ => none

/-- Texts under names; of several under one name the last one counts. -/
def textMap? : Nat → Json → Option (List (String × String))
  | _ + 1, .object members => members.mapM fun m => do
    let name ← m.1
    let text ← m.2.text?
    some (name, text)
  | _, _ => none

/-- The alternative of a choice without content: its name, or an object with the name and nothing
under it.  Nothing is `null`, and for a value that was read ahead also an empty object. -/
def unitChoice? (ahead : Bool) : Nat → Json → Option String
  | _, .string value => value
  | _ + 1, .object [(name, .null)] => name
  | _ + 1, .object [(name, .object [])] => if ahead then name else none
  | _, _ => none

end CallPolicy.Json
