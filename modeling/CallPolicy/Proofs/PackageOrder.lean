import CallPolicy.Proofs.FilteredView

/-!
# The order of packages

Each package is analyzed by itself: what it adds to a report depends on the symbols and types of the
model, and not on the packages beside it.  So the order of the packages can be seen in a report only
where several of them have a reference at one position, and there only in the order of what is said
about it.

## Main statements

* `positions_report_of_perm` — a report names the same positions, whatever the order of packages.
* `nodup_positions_allDiagnostics` — packages that share no position report each position once.
* `diagnostics_report_of_perm` — they are reported on in one way.
* `exists_sameFindings` — the reports on a model with its packages in one order and in another.
-/

namespace CallPolicy

/-- The order of its packages does not decide whether a model is consistent. -/
theorem Model.isConsistent_of_perm {m : Model} {packages : List Package}
    (hperm : packages.Perm m.packages) (hm : m.isConsistent = true) :
    { m with packages }.isConsistent = true := by
  rw [isConsistent_iff] at hm ⊢
  exact ⟨fun p hp => hm.uses p (hperm.mem_iff.1 hp), hm.types, hm.symbols⟩

/-- No two packages of the model have a reference at one position. -/
def Model.SharesNoPosition (m : Model) (origins : OriginMap) : Prop :=
  m.packages.Pairwise fun p q =>
    ∀ r ∈ m.references origins p, ∀ s ∈ m.references origins q, r.position ≠ s.position

/-- The two reports differ at most in the order of what they say at each position. -/
structure Report.SameFindings (r r' : Report) : Prop where
  verdict : r'.verdict = r.verdict
  packagesChecked : r'.packagesChecked = r.packagesChecked
  filesChecked : r'.filesChecked = r.filesChecked
  suppressed : r'.suppressed = r.suppressed
  diagnostics : r'.diagnostics.Perm r.diagnostics
  positions : r'.diagnostics.map Diagnostic.position = r.diagnostics.map Diagnostic.position

theorem Report.SameFindings.refl (r : Report) : r.SameFindings r :=
  ⟨rfl, rfl, rfl, rfl, .refl _, rfl⟩

/-- Reports of one mode on the same findings have one verdict. -/
theorem Report.verdict_of_perm {r r' : Report} (hmode : r'.mode = r.mode)
    (hperm : r'.diagnostics.Perm r.diagnostics) : r'.verdict = r.verdict := by
  unfold verdict
  rw [hmode, hperm.isEmpty_eq]

namespace Analyzer

variable {a : Analyzer} {m : Model} {packages : List Package}

/-! ## Packages in another order -/

/-- The same is reported, whatever the order of the packages. -/
theorem perm_diagnostics_report_of_perm (hperm : packages.Perm m.packages) :
    (a.report { m with packages }).diagnostics.Perm (a.report m).diagnostics := by
  have hall : (a.allDiagnostics { m with packages }).Perm (a.allDiagnostics m) :=
    hperm.flatMap_right fun p => (a.outcome m p).diagnostics
  have hbefore := perm_diagnostics_report a { m with packages }
  have hafter := perm_diagnostics_report a m
  exact (hbefore.trans hall).trans hafter.symm

/-- **A report names the same positions in the same order, whatever the order of the packages.** -/
theorem positions_report_of_perm (hperm : packages.Perm m.packages) :
    (a.report { m with packages }).diagnostics.map Diagnostic.position =
      (a.report m).diagnostics.map Diagnostic.position := by
  have hsorted : ∀ m, ((a.report m).diagnostics.map Diagnostic.position).Pairwise
      fun p q => p.le q = true := by
    intro m
    rw [List.pairwise_map]
    exact pairwise_diagnostics_report a m
  refine List.Perm.eq_of_pairwise ?_ (hsorted _) (hsorted _)
    ((perm_diagnostics_report_of_perm hperm).map _)
  intro p q _ _ hpq hqp
  exact Position.le_antisymm hpq hqp

theorem sameFindings_report (hperm : packages.Perm m.packages) :
    (a.report m).SameFindings (a.report { m with packages }) where
  verdict := by
    refine Report.verdict_of_perm ?_ (perm_diagnostics_report_of_perm hperm)
    rw [mode_report, mode_report]
  packagesChecked := by
    rw [packagesChecked_report, packagesChecked_report]
    exact hperm.length_eq
  filesChecked := by
    rw [filesChecked_report, filesChecked_report]
    exact (hperm.map _).sum_eq
  suppressed := by
    rw [suppressed_report, suppressed_report]
    exact (hperm.map fun p => (a.outcome m p).suppressed).sum_eq
  diagnostics := perm_diagnostics_report_of_perm hperm
  positions := positions_report_of_perm hperm

/-! ## Packages that share no position -/

/-- What a policy has to say of a reference. -/
def remark? : Policy → Package × Reference → Option Diagnostic
  | .listAll, c => some (listed c)
  | .check denylist, c => denied? denylist c

theorem position_of_remark? {policy : Policy} {c : Package × Reference} {d : Diagnostic}
    (h : remark? policy c = some d) : d.position = c.2.position := by
  cases policy with
  | listAll =>
    cases h
    rfl
  | check denylist => exact (denied?_eq_some h).1

theorem allDiagnostics_eq (a : Analyzer) (m : Model) :
    a.allDiagnostics m = (a.calls m).filterMap (remark? a.policy) := by
  cases hpolicy : a.policy with
  | listAll => exact allDiagnostics_listAll hpolicy
  | check denylist => exact allDiagnostics_check hpolicy

/-- Packages that share no position have their references at different positions. -/
theorem nodup_positions_calls (h : m.SharesNoPosition a.origins) :
    ((a.calls m).map fun c => c.2.position).Nodup := by
  have hpositions : (a.calls m).map (fun c => c.2.position) =
      m.packages.flatMap fun p => (a.includedReferences m p).map Reference.position := by
    simp [calls, List.map_flatMap, Function.comp_def]
  rw [hpositions, List.nodup_flatMap]
  constructor
  · intro p _
    rw [List.Nodup, List.pairwise_map]
    refine ((m.pairwise_references a.origins p).filter _).imp ?_
    intro r s hlt heq
    rw [heq, Std.ReflOrd.compare_self] at hlt
    cases hlt
  · refine h.imp ?_
    intro p q hpq position hp hq
    obtain ⟨r, hr, hposition⟩ := List.mem_map.1 hp
    obtain ⟨s, hs, rfl⟩ := List.mem_map.1 hq
    exact hpq r (List.mem_filter.1 hr).1 s (List.mem_filter.1 hs).1 hposition

/-- **Packages that share no position report each position once.** -/
theorem nodup_positions_allDiagnostics (h : m.SharesNoPosition a.origins) :
    ((a.allDiagnostics m).map Diagnostic.position).Nodup := by
  rw [allDiagnostics_eq, List.Nodup, List.pairwise_map, List.pairwise_filterMap]
  have hcalls := nodup_positions_calls h
  rw [List.Nodup, List.pairwise_map] at hcalls
  refine hcalls.imp ?_
  intro c c' hne d hd e he
  rw [position_of_remark? hd, position_of_remark? he]
  exact hne

/-- Packages that share no position are reported on in one way, whatever their order. -/
theorem diagnostics_report_of_perm (hperm : packages.Perm m.packages)
    (h : m.SharesNoPosition a.origins) :
    (a.report { m with packages }).diagnostics = (a.report m).diagnostics := by
  have hfound := perm_diagnostics_report_of_perm (a := a) hperm
  have hnodup : ((a.report m).diagnostics.map Diagnostic.position).Nodup :=
    ((perm_diagnostics_report a m).map _).nodup_iff.2 (nodup_positions_allDiagnostics h)
  refine List.Perm.eq_of_pairwise ?_ (pairwise_diagnostics_report a _)
    (pairwise_diagnostics_report a m) hfound
  intro d e hd he hde hed
  exact List.inj_on_of_nodup_map hnodup (hfound.mem_iff.1 hd) he (Position.le_antisymm hde hed)

/-! ## Runs -/

/-- **The order of the packages of a model shows at most in the order of what is reported at one
position,** and not at all if no two packages have a reference at one position. -/
theorem exists_sameFindings {loader : Loader} (hm : m.isConsistent = true)
    (hperm : packages.Perm m.packages) (hload : a.loader a.specs a.dir = .ok m)
    (hload' : loader a.specs a.dir = .ok { m with packages }) :
    ∃ r r', a.analyze = .ok r ∧ { a with loader }.analyze = .ok r' ∧ r.SameFindings r' ∧
      (m.SharesNoPosition a.origins → r'.diagnostics = r.diagnostics) := by
  by_cases hidle : a.isIdle = true
  · refine ⟨.empty a.policy.mode, .empty a.policy.mode, if_pos hidle, if_pos hidle, .refl _, ?_⟩
    exact fun _ => rfl
  · have hbusy : a.isIdle = false := Bool.eq_false_iff.2 hidle
    have hreport := analyze_eq_report hbusy hload hm
    have hreport' := analyze_eq_report (a := { a with loader }) hbusy hload'
      (Model.isConsistent_of_perm hperm hm)
    refine ⟨_, _, hreport, hreport', sameFindings_report hperm, ?_⟩
    exact diagnostics_report_of_perm hperm

/-- The list of all references of the given model, wherever it is asked for. -/
def listOf (m : Model) : Analyzer :=
  { checkOf m .empty with policy := .listAll }

/-- A package with a call in the given line, and one that calls another function in line 2. -/
def callsInLine (line : Nat) : Model where
  symbols := [⟨"f", ⟨"lib"⟩, .function {}⟩, ⟨"g", ⟨"lib"⟩, .function {}⟩]
  packages :=
    [{ path := "a", uses := [⟨⟨⟨"a.go"⟩, line, 1⟩, 0⟩] },
     { path := "b", uses := [⟨⟨⟨"a.go"⟩, 2, 1⟩, 1⟩] }]

/-- The same with the packages in the opposite order. -/
def swappedInLine (line : Nat) : Model :=
  { callsInLine line with packages := (callsInLine line).packages.reverse }

theorem exists_sameFindings_swapped :
    ((callsInLine 2).isConsistent = true ∧
      ∃ r r', (listOf (callsInLine 2)).analyze = .ok r ∧
        (listOf (swappedInLine 2)).analyze = .ok r' ∧ r.SameFindings r') ∧
    ((callsInLine 3).isConsistent = true ∧ (callsInLine 3).SharesNoPosition .empty ∧
      ∃ r r', (listOf (callsInLine 3)).analyze = .ok r ∧
        (listOf (swappedInLine 3)).analyze = .ok r' ∧ r'.diagnostics = r.diagnostics) := by
  have hshared : (callsInLine 2).isConsistent = true := by decide
  have happart : (callsInLine 3).isConsistent = true := by decide
  have hpositions : (callsInLine 3).SharesNoPosition .empty := by
    unfold Model.SharesNoPosition
    decide +kernel
  have hswapped : ∀ line, (listOf (swappedInLine line)).loader [allPackages] ⟨"/work"⟩ =
      .ok { callsInLine line with packages := (callsInLine line).packages.reverse } :=
    fun _ => rfl
  obtain ⟨r, r', hr, hr', hsame, -⟩ := exists_sameFindings (a := listOf (callsInLine 2)) hshared
    (List.reverse_perm _) rfl (hswapped 2)
  obtain ⟨s, s', hs, hs', -, heq⟩ := exists_sameFindings (a := listOf (callsInLine 3)) happart
    (List.reverse_perm _) rfl (hswapped 3)
  exact ⟨⟨hshared, r, r', hr, hr', hsame⟩, happart, hpositions, s, s', hs, hs', heq hpositions⟩

/-- At a shared position the order of the packages is the order of what is reported. -/
example : ((listOf (callsInLine 2)).report (callsInLine 2)).diagnostics ≠
    ((listOf (callsInLine 2)).report (swappedInLine 2)).diagnostics := by
  decide +kernel

end Analyzer

end CallPolicy
