import CallPolicy.Analyzer
import CallPolicy.Proofs.References
import Mathlib.Algebra.GroupWithZero.Nat

/-!
# What packages add to a report

A report is put together from the outcomes of the packages, one after the other, and then sorted.
Here the sum is taken apart again: the diagnostics are those of the packages in the order of their
positions, those at one position in the order of the packages, and the counts are sums.

## Main statements

* `foldl_addOutcome` — a run over the packages adds up their outcomes.
* `diagnostics_report`, `filter_diagnostics_report` — the diagnostics of a report.
* `analyze_eq_report` — a run that has something to look for gives the report on the model.
-/

namespace CallPolicy

/-! ## The order of positions -/

namespace Position

theorem le_trans (a b c : Position) (hab : a.le b = true) (hbc : b.le c = true) :
    a.le c = true :=
  Std.TransCmp.isLE_trans hab hbc

theorem le_total (a b : Position) : a.le b = true ∨ b.le a = true := by
  unfold le
  rw [Std.OrientedOrd.eq_swap (a := b)]
  cases compare a b <;> decide

theorem le_refl (a : Position) : a.le a = true := by
  unfold le
  rw [Std.ReflOrd.compare_self]
  rfl

theorem le_antisymm {a b : Position} (hab : a.le b = true) (hba : b.le a = true) : a = b :=
  Std.LawfulEqOrd.eq_of_compare (Std.OrientedCmp.isLE_antisymm hab hba)

theorem lt_of_not_le {a b : Position} (h : ¬b.le a = true) : compare a b = .lt := by
  rw [← Std.OrientedCmp.gt_iff_lt]
  unfold le at h
  cases hba : compare b a with
  | gt => rfl
  | lt => simp [hba] at h
  | eq => simp [hba] at h

end Position

/-- A consistent model passes validation as it is. -/
theorem Model.validate_of_isConsistent {m : Model} (h : m.isConsistent = true) :
    m.validate = .ok m := by
  unfold Model.isConsistent at h
  unfold Model.validate
  rw [Option.isNone_iff_eq_none.1 h]

namespace Analyzer

/-! ## Adding up -/

/-- The diagnostics of all packages, package by package. -/
def allDiagnostics (a : Analyzer) (m : Model) : List Diagnostic :=
  m.packages.flatMap fun p => (a.outcome m p).diagnostics

/-- Adding outcomes one after the other adds up each part. -/
theorem foldl_addOutcome (outcomes : List PackageOutcome) (r : Report) :
    outcomes.foldl addOutcome r =
      { mode := r.mode
        diagnostics := r.diagnostics ++ outcomes.flatMap PackageOutcome.diagnostics
        packagesChecked := r.packagesChecked + outcomes.length
        filesChecked := r.filesChecked + (outcomes.map PackageOutcome.files).sum
        suppressed := r.suppressed + (outcomes.map PackageOutcome.suppressed).sum } := by
  induction outcomes generalizing r with
  | nil => simp
  | cons o rest ih =>
    rw [List.foldl_cons, ih]
    simp [addOutcome, Nat.add_assoc, Nat.add_comm 1]

theorem mode_report (a : Analyzer) (m : Model) : (a.report m).mode = a.policy.mode := by
  rw [report, foldl_addOutcome]
  rfl

theorem diagnostics_report (a : Analyzer) (m : Model) :
    (a.report m).diagnostics =
      stableSort (fun d e => d.position.le e.position) (a.allDiagnostics m) := by
  rw [report, foldl_addOutcome]
  simp [Report.sort, Report.empty, allDiagnostics, List.flatMap_map]

theorem packagesChecked_report (a : Analyzer) (m : Model) :
    (a.report m).packagesChecked = m.packages.length := by
  rw [report, foldl_addOutcome]
  simp [Report.sort, Report.empty]

theorem suppressed_report (a : Analyzer) (m : Model) :
    (a.report m).suppressed = (m.packages.map fun p => (a.outcome m p).suppressed).sum := by
  rw [report, foldl_addOutcome]
  simp [Report.sort, Report.empty, Function.comp_def]

/-- Every policy counts the files of a package alike. -/
theorem files_outcome (a : Analyzer) (m : Model) (p : Package) :
    (a.outcome m p).files = p.files.length := by
  unfold outcome
  split <;> rfl

theorem filesChecked_report (a : Analyzer) (m : Model) :
    (a.report m).filesChecked = (m.packages.map fun p => p.files.length).sum := by
  rw [report, foldl_addOutcome]
  simp [Report.sort, Report.empty, Function.comp_def, files_outcome]

/-! ## The order of the diagnostics -/

/-- The diagnostics of a report are those of the packages. -/
theorem perm_diagnostics_report (a : Analyzer) (m : Model) :
    (a.report m).diagnostics.Perm (a.allDiagnostics m) := by
  rw [diagnostics_report]
  exact stableSort_perm _

/-- The diagnostics of a report stand in the order of their positions. -/
theorem pairwise_diagnostics_report (a : Analyzer) (m : Model) :
    (a.report m).diagnostics.Pairwise fun d e => d.position.le e.position = true := by
  rw [diagnostics_report]
  refine pairwise_stableSort ?_ ?_ _
  · intro d e f
    exact Position.le_trans _ _ _
  · intro d e
    exact Position.le_total _ _

/-- The diagnostics at one position stand in the order of the packages. -/
theorem filter_diagnostics_report (a : Analyzer) (m : Model) (position : Position) :
    (a.report m).diagnostics.filter (·.position = position) =
      (a.allDiagnostics m).filter (·.position = position) := by
  rw [diagnostics_report]
  refine filter_stableSort ?_ _
  intro d e hd he
  rw [of_decide_eq_true hd, of_decide_eq_true he]
  exact Position.le_refl _

/-! ## Runs -/

/-- A run that has something to look for gives the report on the model that is loaded. -/
theorem analyze_eq_report {a : Analyzer} {m : Model} (hbusy : a.isIdle = false)
    (hload : a.loader a.specs a.dir = .ok m) (hm : m.isConsistent = true) :
    a.analyze = .ok (a.report m) := by
  unfold analyze
  rw [if_neg (by simp [hbusy]), hload]
  simp only [Model.validate_of_isConsistent hm]
  rfl

end Analyzer

end CallPolicy
