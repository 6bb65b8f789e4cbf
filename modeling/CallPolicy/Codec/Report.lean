import CallPolicy.Codec.Model
import CallPolicy.Report

/-!
# Reports in JSON

How reports and their parts are written as JSON values, and how they are read.
-/

namespace CallPolicy

open Json (ofText ofNat ofMembers required fieldsOf listOf)

/-- A mode from a JSON value. -/
def Mode.decode (depth : Nat) (value : Json) : Option Mode :=
  (Json.unitChoice? false depth value).bind fun
    | "list-all" => some .listAll
    | "check" => some .check
    | _ => none

/-- An outcome from a JSON value. -/
def Verdict.decode (depth : Nat) (value : Json) : Option Verdict :=
  (Json.unitChoice? false depth value).bind fun
    | "pass" => some .pass
    | "fail" => some .fail
    | _ => none

/-- A diagnostic as a JSON value. -/
def Diagnostic.encode (d : Diagnostic) : Json :=
  ofMembers [("position", d.position.encode), ("message", ofText d.message)]

/-- A diagnostic from a JSON value. -/
def Diagnostic.decode : Nat → Json → Option Diagnostic
  | 0, _ => none
  | depth + 1, value => do
    let fields ← fieldsOf ["position", "message"] value
    let position ← required (Position.decode depth) "position" fields
    let message ← required Json.text? "message" fields
    some ⟨position, message⟩

/-- A report as a JSON value. -/
def Report.encode (r : Report) : Json :=
  ofMembers [("mode", ofText r.mode.label),
    ("diagnostics", .array (r.diagnostics.map Diagnostic.encode)),
    ("packages_checked", ofNat r.packagesChecked), ("files_checked", ofNat r.filesChecked),
    ("suppressed", ofNat r.suppressed)]

/-- A report from a JSON value. -/
def Report.decode : Nat → Json → Option Report
  | 0, _ => none
  | depth + 1, value => do
    let fields ← fieldsOf
      ["mode", "diagnostics", "packages_checked", "files_checked", "suppressed"] value
    let mode ← required (Mode.decode depth) "mode" fields
    let diagnostics ← required (listOf Diagnostic.decode depth) "diagnostics" fields
    let packagesChecked ← required Json.nat? "packages_checked" fields
    let filesChecked ← required Json.nat? "files_checked" fields
    let suppressed ← required Json.nat? "suppressed" fields
    some ⟨mode, diagnostics, packagesChecked, filesChecked, suppressed⟩

end CallPolicy
