import CallPolicy.Codec.TypeExpr
import CallPolicy.Config

/-!
# Configurations in JSON

How a configuration is written as a JSON value, and how it is read.
-/

namespace CallPolicy

open Json (ofText ofNat ofMembers defaulted fieldsOf listOf optional?)

/-- Texts under names as a JSON value. -/
def OrderedMap.encodeTexts (m : OrderedMap String String) : Json :=
  ofMembers (m.entries.map fun e => (e.1, ofText e.2))

/-- Texts under names from a JSON value. -/
def OrderedMap.decodeTexts (depth : Nat) (value : Json) : Option (OrderedMap String String) :=
  (Json.textMap? depth value).map .ofList

/-- A configuration as a JSON value. -/
def Config.encode (c : Config) : Json :=
  ofMembers
    [("analyzer", ofMembers
      [("exclude", .array (c.exclude.map ofText)),
        ("parallelism", (c.jobs.map ofNat).getD .null)]),
      ("origins", c.origins.rules.encodeTexts), ("denylist", c.denylist.entries.encodeTexts)]

/-- The analyzer's part of a configuration from a JSON value. -/
def Config.decodeAnalyzer : Nat → Json → Option (List String × Option Nat)
  | 0, _ => none
  | depth + 1, value => do
    let fields ← fieldsOf ["exclude", "parallelism"] value
    let exclude ← defaulted [] (listOf (fun _ => Json.text?) depth) "exclude" fields
    let jobs ← defaulted none (optional? Json.nat?) "parallelism" fields
    some (exclude, jobs)

/-- A configuration from a JSON value. -/
def Config.decode : Nat → Json → Option Config
  | 0, _ => none
  | depth + 1, value => do
    let fields ← fieldsOf ["analyzer", "origins", "denylist"] value
    let (exclude, jobs) ← defaulted ([], none) (Config.decodeAnalyzer depth) "analyzer" fields
    let origins ← defaulted .empty (OrderedMap.decodeTexts depth) "origins" fields
    let denylist ← defaulted .empty (OrderedMap.decodeTexts depth) "denylist" fields
    some ⟨exclude, jobs, ⟨origins⟩, ⟨denylist⟩⟩

end CallPolicy
