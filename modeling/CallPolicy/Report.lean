import CallPolicy.Position
import CallPolicy.StableSort

/-!
# Reports

The result of a run: diagnostics with their positions, and counts.  A run that lists all references
always passes; a check fails if it has a diagnostic.
-/

namespace CallPolicy

/-- What a run reports. -/
inductive Mode where
  /-- Every function reference. -/
  | listAll
  /-- The forbidden references that no comment permits. -/
  | check
deriving DecidableEq, Repr, Inhabited

/-- The name of the mode. -/
def Mode.label : Mode → String
  | .listAll => "list-all"
  | .check => "check"

/-- The outcome of a run. -/
inductive Verdict where
  | pass
  | fail
deriving DecidableEq, Repr, Inhabited

/-- The name of the outcome. -/
def Verdict.label : Verdict → String
  | .pass => "pass"
  | .fail => "fail"

/-- A reported line: the message in a check, the canonical signature in a list of references. -/
structure Diagnostic where
  position : Position
  message : String
deriving DecidableEq, Repr, Inhabited

/-- The text `file:line:column: message`. -/
def Diagnostic.render (d : Diagnostic) : String :=
  d.position.render ++ ": " ++ d.message

/-- The result of a run. -/
structure Report where
  mode : Mode
  diagnostics : List Diagnostic := []
  packagesChecked : Nat := 0
  filesChecked : Nat := 0
  /-- The forbidden references that a comment permits. -/
  suppressed : Nat := 0
deriving DecidableEq, Repr, Inhabited

namespace Report

/-- The report of a run that looked at nothing. -/
def empty (mode : Mode) : Report := { mode }

/-- A check fails if it has a diagnostic; a list of references never fails. -/
def verdict (r : Report) : Verdict :=
  match r.mode with
  | .check => if r.diagnostics.isEmpty then .pass else .fail
  | .listAll => .pass

/-- A run fails exactly if it is a check and has a diagnostic. -/
theorem verdict_eq_fail_iff (r : Report) :
    r.verdict = .fail ↔ r.mode = .check ∧ ∃ d, d ∈ r.diagnostics := by
  unfold verdict
  cases r.mode with
  | listAll => simp
  | check => cases r.diagnostics <;> simp

/-- The outcome is to pass. -/
def passed (r : Report) : Bool :=
  r.verdict == .pass

/-- The report with its diagnostics in the order of their positions; those at one position keep
their order. -/
def sort (r : Report) : Report :=
  { r with diagnostics := stableSort (fun a b => a.position.le b.position) r.diagnostics }

/-- The lines of the diagnostics, each ended by a line feed. -/
def renderLines : List Diagnostic → String
  | [] => ""
  | d :: rest => d.render ++ "\n" ++ renderLines rest

/-- One line for each diagnostic. -/
def render (r : Report) : String :=
  renderLines r.diagnostics

/-- The counts, in one line. -/
def summary (r : Report) : String :=
  let found := Nat.repr r.diagnostics.length
  let packages := Nat.repr r.packagesChecked ++ " package(s), "
  let scope := packages ++ Nat.repr r.filesChecked ++ " file(s)"
  match r.mode with
  | .listAll => found ++ " reference(s) in " ++ scope
  | .check =>
    found ++ " forbidden reference(s), " ++ Nat.repr r.suppressed ++ " suppressed, in " ++ scope

/-- Writes the report's lines to an accumulated output, one diagnostic after the other. -/
def writeTo (r : Report) (out : String) : String :=
  r.diagnostics.foldl (fun out d => out ++ d.render ++ "\n") out

theorem foldl_append_renderLines (out : String) (ds : List Diagnostic) :
    ds.foldl (fun out d => out ++ d.render ++ "\n") out = out ++ renderLines ds := by
  induction ds generalizing out with
  | nil => simp [renderLines]
  | cons d rest ih =>
    rw [List.foldl_cons, ih, renderLines]
    simp [String.append_assoc]

/-- What is written is what is rendered, after what was there. -/
theorem writeTo_eq (r : Report) (out : String) : r.writeTo out = out ++ r.render :=
  foldl_append_renderLines out r.diagnostics

end Report

end CallPolicy
