import CallPolicy.Json.Basic
import CallPolicy.Text.Quoted

/-!
# Writing JSON text

Two forms: compact, without blanks, and pretty, with an indentation of two spaces for each level and
one line for each item or member.  Strings escape the quote, the backslash and the characters below
the space; all others stand for themselves.

## Termination

Both printers are structural in the value.
-/

namespace CallPolicy.Json

/-- One character of a string. -/
def escapeChar (c : Char) : List Char :=
  if c = '"' then ['\\', '"']
  else if c = '\\' then ['\\', '\\']
  else if c = '\x08' then ['\\', 'b']
  else if c = '\x0c' then ['\\', 'f']
  else if c = '\n' then ['\\', 'n']
  else if c = '\r' then ['\\', 'r']
  else if c = '\t' then ['\\', 't']
  else if c < ' ' then
    ['\\', 'u', '0', '0', Nat.digitChar (c.toNat / 16), Nat.digitChar (c.toNat % 16)]
  else [c]

/-- A string; one that is no text is written as a lone half of a surrogate pair. -/
def Literal.render : Literal → String
  | some text => "\"" ++ String.ofList (text.toList.flatMap escapeChar) ++ "\""
  | none => "\"\\ud800\""

/-- A number. -/
def Number.render : Number → String
  | .natural value => Nat.repr value
  | .numeral form =>
    (if form.negative then "-" else "") ++ String.ofList form.whole ++
      (if form.fraction.isEmpty then "" else "." ++ String.ofList form.fraction) ++
      match form.exponent with
      | none => ""
      | some (below, digits) => (if below then "e-" else "e") ++ String.ofList digits

mutual

/-- The compact form. -/
def compact : Json → String
  | .null => "null"
  | .bool true => "true"
  | .bool false => "false"
  | .number value => value.render
  | .string value => value.render
  | .array items => "[" ++ ",".intercalate (compactItems items) ++ "]"
  | .object members => "\x7b" ++ ",".intercalate (compactMembers members) ++ "\x7d"

/-- The compact forms of items. -/
def compactItems : List Json → List String
  | [] => []
  | item :: rest => item.compact :: compactItems rest

/-- The compact forms of members. -/
def compactMembers : List (Literal × Json) → List String
  | [] => []
  | (name, value) :: rest => (name.render ++ ":" ++ value.compact) :: compactMembers rest

end

/-- The start of a line at the given level. -/
def newLine (level : Nat) : String :=
  "\n" ++ String.ofList (List.replicate (2 * level) ' ')

mutual

/-- The pretty form at the given level. -/
def pretty (level : Nat) : Json → String
  | .null => "null"
  | .bool true => "true"
  | .bool false => "false"
  | .number value => value.render
  | .string value => value.render
  | .array [] => "[]"
  | .array (item :: rest) =>
    "[" ++ newLine (level + 1) ++
      ("," ++ newLine (level + 1)).intercalate (prettyItems (level + 1) (item :: rest)) ++
      newLine level ++ "]"
  | .object [] => "\x7b\x7d"
  | .object (member :: rest) =>
    "\x7b" ++ newLine (level + 1) ++
      ("," ++ newLine (level + 1)).intercalate (prettyMembers (level + 1) (member :: rest)) ++
      newLine level ++ "\x7d"

/-- The pretty forms of items at the given level. -/
def prettyItems (level : Nat) : List Json → List String
  | [] => []
  | item :: rest => pretty level item :: prettyItems level rest

/-- The pretty forms of members at the given level. -/
def prettyMembers (level : Nat) : List (Literal × Json) → List String
  | [] => []
  | (name, value) :: rest =>
    (name.render ++ ": " ++ pretty level value) :: prettyMembers level rest

end

end CallPolicy.Json
