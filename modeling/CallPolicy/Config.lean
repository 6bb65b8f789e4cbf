import CallPolicy.Denylist
import CallPolicy.Entries
import CallPolicy.FileTree.Basic
import CallPolicy.Glob.Parser
import CallPolicy.Json.Decoding
import CallPolicy.Json.Parser
import CallPolicy.Toml.Document

/-!
# Configuration

A configuration is a TOML document with the patterns of files to leave out, a cap on the number of
packages analyzed at a time, the origins of re-exporting modules, and the denylist.  Everything in
it is optional, and what it does not know it ignores.
-/

namespace CallPolicy

/-- The settings that a configuration file gives. -/
structure Config where
  /-- Patterns of the files whose references are left out. -/
  exclude : List String := []
  /-- The number of packages analyzed at a time. -/
  jobs : Option Nat := none
  origins : OriginMap := .empty
  denylist : Denylist := .empty
deriving DecidableEq, Inhabited

/-- What is wrong with the settings of a run. -/
inductive ConfigError where
  /-- The configuration file cannot be read. -/
  | unreadable (path : Path) (cause : FileError)
  /-- The configuration file does not hold a configuration.  Where and why, as the reader of TOML
  words it, is left out. -/
  | malformed
  /-- The text does not hold a denylist.  Where and why, as the reader of JSON words it, is left
  out. -/
  | invalidDenylist (input : String)
  /-- The pattern cannot be read. -/
  | invalidGlob (pattern : String) (cause : Glob.Error)
  /-- No package may be analyzed at all. -/
  | noJobs
  /-- There is nowhere to load packages from. -/
  | noLoader
deriving DecidableEq, Repr

namespace ConfigError

/-- What happened, without the wording of a reader of TOML or JSON. -/
def message : ConfigError → String
  | .unreadable path cause =>
    "Failed to read config file " ++ path.text ++ ": " ++ cause.message
  | .malformed => "Failed to parse config"
  | .invalidDenylist input => "Failed to parse denylist " ++ Text.quote input
  | .invalidGlob pattern cause =>
    "Invalid exclude pattern " ++ Text.quote pattern ++ ": " ++ cause.message
  | .noJobs => "Invalid parallelism 0: must be at least 1"
  | .noLoader => "No resolver configured"

/-- The code of the kind of error. -/
def code : ConfigError → String
  | .unreadable _ _ => "callgate::config::io"
  | .malformed => "callgate::config::parse"
  | .invalidDenylist _ => "callgate::config::denylist"
  | .invalidGlob _ _ => "callgate::config::glob"
  | .noJobs => "callgate::config::parallelism"
  | .noLoader => "callgate::config::resolver"

/-- What to do about it. -/
def help? : ConfigError → Option String
  | .invalidDenylist _ =>
    some ("expected a JSON object mapping signatures to messages, e.g. " ++
      "\x7b\"func fmt.Println(...any) (int, error)\": \"\"\x7d")
  | _ => none

end ConfigError

/-- The denylist in a JSON text. -/
def Denylist.parse (text : String) : Except ConfigError Denylist :=
  match (Json.parse? text).bind (Json.textMap? Json.maxDepth) with
  | some entries => .ok (.ofList entries)
  | none => .error (.invalidDenylist text)

namespace Config

/-! ## From TOML -/

open Toml (Value)

/-- The key under which a date or a time appears where a table is asked for. -/
def momentKey : String := "$__toml_private_datetime"

/-- The entries of a value that is a table; a date or a time is one with a single entry. -/
def tableOf? : Value → Option (List (String × Value))
  | .table entries => some entries
  | .moment text => some [(momentKey, .string text)]
  | _ => none

/-- The entries of a record with the given fields: a table, or an array of the fields in order. -/
def recordOf? (names : List String) : Value → Option (List (String × Value))
  | .array items => some (names.zip items)
  | value => tableOf? value

/-- A value as text. -/
def text? : Value → Option String
  | .string text => some text
  | _ => none

/-- A value as a list of texts. -/
def texts? : Value → Option (List String)
  | .array items => items.mapM text?
  | _ => none

/-- A value as a number of jobs. -/
def jobs? : Value → Option Nat
  | .integer n => if 0 ≤ n then some n.toNat else none
  | _ => none

/-- A value as texts under names. -/
def textMap? (value : Value) : Option (OrderedMap String String) := do
  let entries ← tableOf? value
  let pairs ← entries.mapM fun e => (text? e.2).map fun text => (e.1, text)
  some (.ofList pairs)

/-- What a field holds, or its default. -/
def field? {α : Type} (default : α) (decode : Value → Option α) (key : String)
    (entries : List (String × Value)) : Option α :=
  match Entries.find? key entries with
  | none => some default
  | some value => decode value

/-- The configuration in the table of a document. -/
def ofEntries? (entries : List (String × Value)) : Option Config := do
  let analyzer ← field? [] (recordOf? ["exclude", "parallelism"]) "analyzer" entries
  let exclude ← field? [] texts? "exclude" analyzer
  let jobs ← field? none (fun v => (jobs? v).map some) "parallelism" analyzer
  let origins ← field? .empty textMap? "origins" entries
  let denylist ← field? .empty textMap? "denylist" entries
  some ⟨exclude, jobs, ⟨origins⟩, ⟨denylist⟩⟩

/-- The configuration in a TOML text. -/
def parse (text : String) : Except ConfigError Config :=
  match (Toml.parse? text).bind ofEntries? with
  | some config => .ok config
  | none => .error .malformed

/-- The configuration in a file. -/
def load (t : FileTree) (path : Path) : Except ConfigError Config :=
  match t.readText path with
  | .error cause => .error (.unreadable path cause)
  | .ok text => parse text

end Config

end CallPolicy
