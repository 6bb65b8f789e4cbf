import CallPolicy.Proofs.Outcome
import Mathlib.Data.Finset.Card
import Mathlib.Data.List.FinRange

/-!
# A check reports exactly what it must

What a check has to report is said here without its stages: a call is *forbidden* at a position if
it is the last one there, stands in a file that is not left out, and its signature is on the
denylist; a forbidden call is *denied* if no comment permits it.  The report on a model then lists
the denied calls of each package once, counts the permitted ones, and stands in the order of
positions.

## Main statement

* `exists_exact_report` — a check of a consistent model ends with an exact report.
-/

namespace CallPolicy.Analyzer

/-! ## What is to be reported -/

/-- A forbidden call at a position of a package, with its signature and the text stored for it. -/
structure Forbids (a : Analyzer) (denylist : Denylist) (m : Model) (p : Package)
    (position : Position) (signature stored : String) : Prop where
  /-- It is the last call at the position. -/
  lastCall : ∃ use, m.IsLastCall p position use ∧ m.signatureAt? a.origins use = some signature
  /-- Its signature is on the denylist. -/
  listed : denylist.stored? signature = some stored
  /-- Its file is not left out. -/
  included : a.isExcluded position.file = false

/-- The diagnostic is that of a forbidden call that no comment permits. -/
def Denies (a : Analyzer) (denylist : Denylist) (m : Model) (p : Package) (d : Diagnostic) : Prop :=
  ∃ signature stored, a.Forbids denylist m p d.position signature stored ∧
    (CommentTable.ofPackage p).reasonAt? d.position = none ∧
    d.message = if stored = "" then Denylist.defaultMessage signature else stored

/-- A comment permits a forbidden call at the position. -/
def Permits (a : Analyzer) (denylist : Denylist) (m : Model) (p : Package)
    (position : Position) : Prop :=
  ∃ signature stored, a.Forbids denylist m p position signature stored ∧
    ((CommentTable.ofPackage p).reasonAt? position).isSome = true

/-- The report on a check of the model is exact. -/
structure Exact (a : Analyzer) (denylist : Denylist) (m : Model) (r : Report) : Prop where
  mode : r.mode = .check
  /-- Each package contributes the diagnostics of its denied calls, at most one at a position.  The
  report lists the contributions, those at one position in the order of the packages. -/
  contributions : ∃ contributed : Fin m.packages.length → List Diagnostic,
    (∀ i position, (contributed i).countP (·.position = position) ≤ 1) ∧
    (∀ i d, d ∈ contributed i ↔ a.Denies denylist m (m.packages.get i) d) ∧
    r.diagnostics.Perm ((List.finRange _).flatMap contributed) ∧
    ∀ position, r.diagnostics.filter (·.position = position) =
      ((List.finRange _).flatMap contributed).filter (·.position = position)
  /-- The report stands in the order of positions. -/
  sorted : r.diagnostics.Pairwise fun d e => compare d.position e.position ≠ .gt
  /-- The permitted calls are counted. -/
  suppressed : ∃ permitted : Finset (Fin m.packages.length × Position),
    (∀ i position, (i, position) ∈ permitted ↔
      a.Permits denylist m (m.packages.get i) position) ∧
    r.suppressed = permitted.card
  packagesChecked : r.packagesChecked = m.packages.length
  filesChecked : r.filesChecked = (m.packages.map fun p => p.files.length).sum
  /-- The check fails exactly if some call is denied. -/
  verdict : r.verdict = .fail ↔ ∃ p ∈ m.packages, ∃ d, a.Denies denylist m p d

/-! ## Forbidden calls of a package -/

variable {a : Analyzer} {denylist : Denylist} {m : Model} {p : Package}

/-- The diagnostics for the forbidden calls of a package, permitted or not. -/
def forbiddenCalls (a : Analyzer) (denylist : Denylist) (m : Model) (p : Package) :
    List Diagnostic :=
  (a.includedReferences m p).filterMap (forbidden? denylist)

theorem diagnostics_outcome_check (hpolicy : a.policy = .check denylist) :
    (a.outcome m p).diagnostics = (a.forbiddenCalls denylist m p).filter
      fun d => !isPermitted (CommentTable.ofPackage p) d.position := by
  simp [outcome, hpolicy, forbiddenCalls]

theorem suppressed_outcome_check (hpolicy : a.policy = .check denylist) :
    (a.outcome m p).suppressed = (a.forbiddenCalls denylist m p).countP
      fun d => isPermitted (CommentTable.ofPackage p) d.position := by
  simp [outcome, hpolicy, forbiddenCalls]

theorem mem_includedReferences_iff (r : Reference) :
    r ∈ a.includedReferences m p ↔
      (∃ use, m.IsLastCall p r.position use ∧ m.signatureAt? a.origins use = some r.signature) ∧
        a.isExcluded r.position.file = false := by
  rw [includedReferences, List.mem_filter, Model.mem_references_iff]
  simp

/-- The message for a forbidden signature is the stored text, or the default wording. -/
theorem messageFor?_eq_some_iff (denylist : Denylist) (signature message : String) :
    denylist.messageFor? signature = some message ↔
      ∃ stored, denylist.stored? signature = some stored ∧
        message = if stored = "" then Denylist.defaultMessage signature else stored := by
  rw [Denylist.messageFor?, Option.map_eq_some_iff]
  simp only [String.isEmpty_iff, eq_comm (a := message)]

theorem mem_forbiddenCalls_iff (d : Diagnostic) :
    d ∈ a.forbiddenCalls denylist m p ↔
      ∃ signature stored, a.Forbids denylist m p d.position signature stored ∧
        d.message = if stored = "" then Denylist.defaultMessage signature else stored := by
  rw [forbiddenCalls, List.mem_filterMap]
  constructor
  · rintro ⟨⟨position, signature⟩, hr, hd⟩
    obtain ⟨message, hmessage, rfl⟩ := Option.map_eq_some_iff.1 hd
    obtain ⟨stored, hstored, hwording⟩ := (messageFor?_eq_some_iff _ _ _).1 hmessage
    obtain ⟨hlast, hincluded⟩ := (mem_includedReferences_iff _).1 hr
    exact ⟨signature, stored, ⟨hlast, hstored, hincluded⟩, hwording⟩
  · rintro ⟨signature, stored, hforbids, hwording⟩
    refine ⟨⟨d.position, signature⟩, ?_, ?_⟩
    · exact (mem_includedReferences_iff _).2 ⟨hforbids.lastCall, hforbids.included⟩
    · refine Option.map_eq_some_iff.2 ⟨d.message, ?_, rfl⟩
      exact (messageFor?_eq_some_iff _ _ _).2 ⟨stored, hforbids.listed, hwording⟩

/-- The forbidden calls stand in strictly increasing order of positions. -/
theorem pairwise_forbiddenCalls (a : Analyzer) (denylist : Denylist) (m : Model) (p : Package) :
    (a.forbiddenCalls denylist m p).Pairwise fun d e => compare d.position e.position = .lt := by
  rw [forbiddenCalls, List.pairwise_filterMap]
  refine ((m.pairwise_references a.origins p).filter _).imp ?_
  intro r s hrs d hd e he
  obtain ⟨-, -, rfl⟩ := Option.map_eq_some_iff.1 hd
  obtain ⟨-, -, rfl⟩ := Option.map_eq_some_iff.1 he
  exact hrs

/-- No two forbidden calls of a package share a position. -/
theorem nodup_positions_forbiddenCalls (a : Analyzer) (denylist : Denylist) (m : Model)
    (p : Package) : ((a.forbiddenCalls denylist m p).map Diagnostic.position).Nodup := by
  rw [List.Nodup, List.pairwise_map]
  refine (pairwise_forbiddenCalls a denylist m p).imp ?_
  intro d e hlt heq
  rw [heq, Std.ReflOrd.compare_self] at hlt
  cases hlt

/-! ## Denied and permitted calls of a package -/

theorem isPermitted_eq_false_iff (comments : CommentTable) (position : Position) :
    isPermitted comments position = false ↔ comments.reasonAt? position = none := by
  rw [isPermitted, Option.isSome_eq_false_iff, Option.isNone_iff_eq_none]

/-- A package contributes exactly the diagnostics of its denied calls. -/
theorem mem_diagnostics_outcome_iff (hpolicy : a.policy = .check denylist) (d : Diagnostic) :
    d ∈ (a.outcome m p).diagnostics ↔ a.Denies denylist m p d := by
  rw [diagnostics_outcome_check hpolicy, List.mem_filter, mem_forbiddenCalls_iff,
    Bool.not_eq_true', isPermitted_eq_false_iff]
  constructor
  · rintro ⟨⟨signature, stored, hforbids, hwording⟩, hreason⟩
    exact ⟨signature, stored, hforbids, hreason, hwording⟩
  · rintro ⟨signature, stored, hforbids, hreason, hwording⟩
    exact ⟨⟨signature, stored, hforbids, hwording⟩, hreason⟩

/-- A package contributes at most one diagnostic at a position. -/
theorem countP_diagnostics_outcome_le_one (hpolicy : a.policy = .check denylist)
    (position : Position) :
    (a.outcome m p).diagnostics.countP (·.position = position) ≤ 1 := by
  have hsub : ((a.outcome m p).diagnostics.map Diagnostic.position).Sublist
      ((a.forbiddenCalls denylist m p).map Diagnostic.position) := by
    rw [diagnostics_outcome_check hpolicy]
    exact List.filter_sublist.map _
  have hcount := List.nodup_iff_count_le_one.1
    ((nodup_positions_forbiddenCalls a denylist m p).sublist hsub) position
  rw [List.count, List.countP_map] at hcount
  exact hcount

/-- The positions of the permitted calls of a package. -/
def permittedPositions (a : Analyzer) (denylist : Denylist) (m : Model) (p : Package) :
    List Position :=
  ((a.forbiddenCalls denylist m p).filter
    fun d => isPermitted (CommentTable.ofPackage p) d.position).map Diagnostic.position

theorem nodup_permittedPositions (a : Analyzer) (denylist : Denylist) (m : Model) (p : Package) :
    (a.permittedPositions denylist m p).Nodup :=
  (nodup_positions_forbiddenCalls a denylist m p).sublist (List.filter_sublist.map _)

theorem length_permittedPositions (hpolicy : a.policy = .check denylist) :
    (a.permittedPositions denylist m p).length = (a.outcome m p).suppressed := by
  rw [suppressed_outcome_check hpolicy, permittedPositions, List.length_map,
    List.countP_eq_length_filter]

theorem mem_permittedPositions_iff (position : Position) :
    position ∈ a.permittedPositions denylist m p ↔ a.Permits denylist m p position := by
  rw [permittedPositions, List.mem_map]
  constructor
  · rintro ⟨d, hd, rfl⟩
    obtain ⟨hd, hpermitted⟩ := List.mem_filter.1 hd
    obtain ⟨signature, stored, hforbids, -⟩ := (mem_forbiddenCalls_iff d).1 hd
    exact ⟨signature, stored, hforbids, hpermitted⟩
  · rintro ⟨signature, stored, hforbids, hpermitted⟩
    -- the diagnostic that the call would have got
    refine ⟨⟨position, if stored = "" then Denylist.defaultMessage signature else stored⟩, ?_, rfl⟩
    exact List.mem_filter.2
      ⟨(mem_forbiddenCalls_iff _).2 ⟨signature, stored, hforbids, rfl⟩, hpermitted⟩

/-! ## Reports -/

/-- The permitted calls of all packages, each by the number of its package and its position. -/
def permittedCalls (a : Analyzer) (denylist : Denylist) (m : Model) :
    List (Fin m.packages.length × Position) :=
  (List.finRange _).flatMap fun i =>
    (a.permittedPositions denylist m (m.packages.get i)).map (Prod.mk i)

theorem nodup_permittedCalls (a : Analyzer) (denylist : Denylist) (m : Model) :
    (a.permittedCalls denylist m).Nodup := by
  rw [permittedCalls, List.nodup_flatMap]
  constructor
  · intro i _
    exact (nodup_permittedPositions a denylist m _).map (Prod.mk_right_injective i)
  · refine (List.nodup_finRange _).imp ?_
    intro i j hij x hi hj
    obtain ⟨q, -, rfl⟩ := List.mem_map.1 hi
    obtain ⟨q', -, hx⟩ := List.mem_map.1 hj
    exact hij (congrArg Prod.fst hx).symm

theorem mem_permittedCalls_iff (i : Fin m.packages.length) (position : Position) :
    (i, position) ∈ a.permittedCalls denylist m ↔
      a.Permits denylist m (m.packages.get i) position := by
  rw [← mem_permittedPositions_iff, permittedCalls, List.mem_flatMap]
  constructor
  · rintro ⟨j, -, hj⟩
    obtain ⟨q, hq, heq⟩ := List.mem_map.1 hj
    injection heq with hi hposition
    subst hi hposition
    exact hq
  · intro h
    exact ⟨i, List.mem_finRange i, List.mem_map.2 ⟨position, h, rfl⟩⟩

theorem length_permittedCalls (hpolicy : a.policy = .check denylist) :
    (a.permittedCalls denylist m).length = (a.report m).suppressed := by
  rw [permittedCalls, List.length_flatMap, suppressed_report]
  simp only [List.length_map, length_permittedPositions hpolicy]
  conv => rhs; rw [← List.map_get_finRange m.packages, List.map_map]
  rfl

/-- The check fails exactly if some call is denied. -/
theorem verdict_report_iff (hpolicy : a.policy = .check denylist) :
    (a.report m).verdict = .fail ↔ ∃ p ∈ m.packages, ∃ d, a.Denies denylist m p d := by
  have hmode : (a.report m).mode = .check := by rw [mode_report, hpolicy]; rfl
  have hfail : (a.report m).verdict = .fail ↔ ∃ d, d ∈ (a.report m).diagnostics := by
    unfold Report.verdict
    rw [hmode]
    cases (a.report m).diagnostics <;> simp
  rw [hfail]
  simp only [(perm_diagnostics_report a m).mem_iff, allDiagnostics, List.mem_flatMap,
    mem_diagnostics_outcome_iff hpolicy]
  constructor
  · rintro ⟨d, p, hp, hd⟩
    exact ⟨p, hp, d, hd⟩
  · rintro ⟨p, hp, d, hd⟩
    exact ⟨d, p, hp, hd⟩

/-- The report on a check is exact. -/
theorem exact_of_check (hpolicy : a.policy = .check denylist) :
    a.Exact denylist m (a.report m) where
  mode := by rw [mode_report, hpolicy]; rfl
  contributions := by
    have hflat : ((List.finRange _).flatMap fun i => (a.outcome m (m.packages.get i)).diagnostics) =
        a.allDiagnostics m := by
      conv => rhs; rw [allDiagnostics, ← List.map_get_finRange m.packages, List.flatMap_map]
    refine ⟨fun i => (a.outcome m (m.packages.get i)).diagnostics, ?_, ?_, ?_, ?_⟩
    · exact fun i position => countP_diagnostics_outcome_le_one hpolicy position
    · exact fun i d => mem_diagnostics_outcome_iff hpolicy d
    · rw [hflat]
      exact perm_diagnostics_report a m
    · intro position
      rw [hflat]
      exact filter_diagnostics_report a m position
  sorted := by
    refine (pairwise_diagnostics_report a m).imp ?_
    intro d e hle hgt
    rw [Position.le, hgt] at hle
    cases hle
  suppressed := by
    refine ⟨(a.permittedCalls denylist m).toFinset, ?_, ?_⟩
    · intro i position
      rw [List.mem_toFinset, mem_permittedCalls_iff]
    · rw [List.toFinset_card_of_nodup (nodup_permittedCalls a denylist m),
        length_permittedCalls hpolicy]
  packagesChecked := packagesChecked_report a m
  filesChecked := filesChecked_report a m
  verdict := verdict_report_iff hpolicy

/-- **A check of a consistent model ends with an exact report.** -/
theorem exists_exact_report (hpolicy : a.policy = .check denylist)
    (hlisted : denylist.isEmpty = false) (hload : a.loader a.specs a.dir = .ok m)
    (hm : m.isConsistent = true) :
    ∃ r, a.analyze = .ok r ∧ a.Exact denylist m r := by
  have hbusy : a.isIdle = false := by
    unfold isIdle
    rw [hpolicy]
    exact hlisted
  exact ⟨a.report m, analyze_eq_report hbusy hload hm, exact_of_check hpolicy⟩

/-- A check of the given model, wherever it is asked for. -/
def checkOf (m : Model) (denylist : Denylist) : Analyzer where
  loader := fun _ _ => .ok m
  dir := ⟨"/work"⟩
  specs := [allPackages]
  policy := .check denylist
  origins := .empty
  exclude := []
  jobs := none

/-- Two packages with calls of one function at the same position.  In the first one a variable
stands there too, and a comment permits a second call. -/
def sharedPosition : Model where
  symbols := [⟨"f", ⟨"lib"⟩, .function {}⟩, ⟨"v", ⟨"lib"⟩, .variable⟩]
  packages :=
    [{ path := "a"
       files := [⟨⟨"a.go"⟩, []⟩]
       uses := [⟨⟨⟨"a.go"⟩, 2, 1⟩, 0⟩, ⟨⟨⟨"a.go"⟩, 2, 1⟩, 1⟩, ⟨⟨⟨"a.go"⟩, 5, 1⟩, 0⟩]
       comments := [⟨⟨"a.go"⟩, 4, "// OK: known"⟩] },
     { path := "b", uses := [⟨⟨⟨"a.go"⟩, 2, 1⟩, 0⟩] }]

theorem exists_exact_report_sharedPosition :
    (Denylist.ofList [("func lib.f()", "")]).isEmpty = false ∧
      sharedPosition.isConsistent = true ∧
      ∃ r, (checkOf sharedPosition (.ofList [("func lib.f()", "")])).analyze = .ok r ∧
        (checkOf sharedPosition (.ofList [("func lib.f()", "")])).Exact
          (.ofList [("func lib.f()", "")]) sharedPosition r :=
  ⟨rfl, by decide, exists_exact_report rfl rfl rfl (by decide)⟩

end CallPolicy.Analyzer
