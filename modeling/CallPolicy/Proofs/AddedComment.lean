import CallPolicy.Proofs.FilteredView
import CallPolicy.Proofs.LineAbove

/-!
# One more comment

A comment that permits calls is added to a package, in a file for which the package reports comments
already.  Then the source lines of the file are not read before and are not read after, and the
comment hides at most another one at its own line.  So what the package permits is what it permitted
before and what stands on the line below the comment.

The other packages have their own comments.  They may have calls at the very same positions, and a
report does not say which package a diagnostic comes from.  So the diagnostics are followed here
with the numbers of their packages, from the packages to the sorted report.

## Main statements

* `CommentTable.get?_ofPackage_addComment` — the comments of the package.
* `Analyzer.isPermitted_addComment` — what they permit.
* `Analyzer.attributes_report` — the diagnostics of a report with the numbers of their packages.
* `Analyzer.exists_silenced` — the report loses the diagnostics below the comment, and no others.
-/

namespace CallPolicy

/-! ## Models with one more comment -/

/-- The model with one more comment in the package of the given number. -/
def Model.addComment (m : Model) (k : Nat) (c : Comment) : Model :=
  { m with packages := m.packages.modify k (·.addComment c) }

namespace Model

variable (m : Model) (k : Nat) (c : Comment)

theorem zipIdx_packages_addComment :
    (m.addComment k c).packages.zipIdx =
      m.packages.zipIdx.map fun x => (if x.2 = k then x.1.addComment c else x.1, x.2) := by
  refine List.ext_getElem? fun i => ?_
  simp only [addComment, List.getElem?_zipIdx, List.getElem?_map, List.getElem?_modify]
  cases m.packages[i]? <;> simp [eq_comm]

/-- What does not depend on the comments of a package stays as it is. -/
theorem map_packages_addComment {α : Type} {f : Package → α}
    (hf : ∀ p, f (p.addComment c) = f p) :
    (m.addComment k c).packages.map f = m.packages.map f := by
  refine List.ext_getElem? fun i => ?_
  simp only [addComment, List.getElem?_map, List.getElem?_modify]
  cases m.packages[i]? with
  | none => rfl
  | some p => by_cases hi : k = i <;> simp [hi, hf]

theorem uncommented_addComment : (m.addComment k c).uncommented = m.uncommented := by
  rw [uncommented, map_packages_addComment m k c fun _ => rfl]
  rfl

end Model

/-- The position is on the line below the comment. -/
def Comment.isAbove (c : Comment) (position : Position) : Bool :=
  position.file.components = c.file.components ∧ position.line = c.line + 1

namespace CommentTable

/-! ## The comments of the package -/

variable {p : Package} {c : Comment}

/-- The last comment hides those before it at its line. -/
theorem get?_ofComments_concat (comments : List Comment) (c : Comment) (file : Path) (line : Nat) :
    (ofComments (comments ++ [c])).get? file line =
      (if file.components = c.file.components ∧ line = c.line then some c.text else none).or
        ((ofComments comments).get? file line) := by
  have hnil : (ofComments []).get? file line = none := rfl
  induction comments with
  | nil => rw [List.nil_append, get?_ofComments_cons, hnil, Option.none_or, Option.or_none]
  | cons d rest ih =>
    rw [List.cons_append, get?_ofComments_cons, ih, get?_ofComments_cons, Option.or_assoc]

theorem hasFile_ofComments_addComment (h : p.ReportsIn c.file) (file : Path) :
    (ofComments (p.addComment c).comments).hasFile file = (ofComments p.comments).hasFile file := by
  rw [Bool.eq_iff_iff, hasFile_ofComments_iff, hasFile_ofComments_iff]
  constructor
  · rintro ⟨d, hd, hfile⟩
    rcases List.mem_append.1 hd with hd | hd
    · exact ⟨d, hd, hfile⟩
    · -- the file of the new comment has one already
      obtain ⟨e, he, hsame⟩ := h
      rw [List.mem_singleton] at hd
      subst hd
      exact ⟨e, he, hsame.trans hfile⟩
  · rintro ⟨d, hd, hfile⟩
    exact ⟨d, List.mem_append_left _ hd, hfile⟩

/-- **Only the line of the new comment changes.** -/
theorem get?_ofPackage_addComment (h : p.ReportsIn c.file) (file : Path) (line : Nat) :
    (ofPackage (p.addComment c)).get? file line =
      (if file.components = c.file.components ∧ line = c.line then some c.text else none).or
        ((ofPackage p).get? file line) := by
  rw [get?_ofPackage, get?_ofPackage, hasFile_ofComments_addComment h]
  split
  · exact get?_ofComments_concat p.comments c file line
  next hnone =>
    rw [if_neg, Option.none_or]
    · rfl
    · rintro ⟨hfile, -⟩
      obtain ⟨d, hd, hsame⟩ := h
      exact hnone (hasFile_ofComments_iff.2 ⟨d, hd, hsame.trans hfile.symm⟩)

end CommentTable

namespace Analyzer

/-! ## What the package adds to a report -/

section Outcome

variable {a : Analyzer} {denylist : Denylist} {m : Model} {k : Nat} {p : Package} {c : Comment}

/-- **What is permitted is what was permitted and what stands below the comment.** -/
theorem isPermitted_addComment (h : p.ReportsIn c.file) (hline : 1 ≤ c.line)
    (htext : (permitReason? c.text).isSome = true) (position : Position) :
    isPermitted (CommentTable.ofPackage (p.addComment c)) position =
      (isPermitted (CommentTable.ofPackage p) position || c.isAbove position) := by
  unfold isPermitted CommentTable.reasonAt? Comment.isAbove
  by_cases hsecond : 2 ≤ position.line
  · have habove : position.line = c.line + 1 ↔ position.line - 1 = c.line := by omega
    simp only [if_pos hsecond, CommentTable.get?_ofPackage_addComment h, habove]
    by_cases hbelow : position.file.components = c.file.components ∧ position.line - 1 = c.line
    · simp [hbelow, htext]
    · simp [hbelow]
  · have hnot : position.line ≠ c.line + 1 := by omega
    simp [hsecond, hnot]

/-- What a package adds does not depend on the comments of the packages beside it. -/
theorem outcome_model_addComment (q : Package) : a.outcome (m.addComment k c) q = a.outcome m q :=
  rfl

/-- What a package calls does not depend on its comments. -/
theorem forbiddenCalls_addComment :
    a.forbiddenCalls denylist m (p.addComment c) = a.forbiddenCalls denylist m p :=
  rfl

theorem diagnostics_outcome_addComment (hpolicy : a.policy = .check denylist)
    (h : p.ReportsIn c.file) (hline : 1 ≤ c.line) (htext : (permitReason? c.text).isSome = true) :
    (a.outcome m (p.addComment c)).diagnostics =
      (a.outcome m p).diagnostics.filter fun d => !c.isAbove d.position := by
  rw [diagnostics_outcome_check hpolicy, diagnostics_outcome_check hpolicy,
    forbiddenCalls_addComment, List.filter_filter]
  simp only [isPermitted_addComment h hline htext, Bool.not_or, Bool.and_comm]

theorem suppressed_outcome_addComment (hpolicy : a.policy = .check denylist)
    (h : p.ReportsIn c.file) (hline : 1 ≤ c.line) (htext : (permitReason? c.text).isSome = true) :
    (a.outcome m (p.addComment c)).suppressed = (a.outcome m p).suppressed +
      (a.outcome m p).diagnostics.countP fun d => c.isAbove d.position := by
  rw [suppressed_outcome_check hpolicy, suppressed_outcome_check hpolicy,
    diagnostics_outcome_check hpolicy, forbiddenCalls_addComment, List.countP_filter]
  simp only [isPermitted_addComment h hline htext]
  -- a call that is permitted now was so before, or it was not and stands below the comment
  rw [List.countP_eq_countP_filter_add _ _ fun d =>
    isPermitted (CommentTable.ofPackage p) d.position, List.countP_filter, List.countP_filter]
  congr 1
  · refine List.countP_congr fun d _ => ?_
    simpa using Or.inl
  · refine List.countP_congr fun d _ => ?_
    cases isPermitted (CommentTable.ofPackage p) d.position <;> simp

end Outcome

/-! ## Diagnostics with their packages -/

/-- The diagnostics of a report with the numbers of the packages that contribute them. -/
structure Attributes (a : Analyzer) (denylist : Denylist) (m : Model) (r : Report)
    (tagged : List (Nat × Diagnostic)) : Prop where
  diagnostics : r.diagnostics = tagged.map Prod.snd
  /-- A package contributes the diagnostics of its denied calls. -/
  contributed : ∀ i d, (i, d) ∈ tagged ↔ ∃ p, m.packages[i]? = some p ∧ a.Denies denylist m p d
  /-- They stand in the order of positions, those at one position in the order of the packages. -/
  sorted : tagged.Pairwise fun x y => compare x.2.position y.2.position = .lt ∨
    x.2.position = y.2.position ∧ x.1 < y.1

/-- The diagnostics of all packages with their numbers, package by package. -/
def attributed (a : Analyzer) (m : Model) : List (Nat × Diagnostic) :=
  m.packages.zipIdx.flatMap fun x => (a.outcome m x.1).diagnostics.map (Prod.mk x.2)

/-- The same in the order of positions. -/
def sortedAttributed (a : Analyzer) (m : Model) : List (Nat × Diagnostic) :=
  stableSort (fun x y => x.2.position.le y.2.position) (a.attributed m)

variable {a : Analyzer} {denylist : Denylist} {m : Model}

theorem map_snd_attributed (a : Analyzer) (m : Model) :
    (a.attributed m).map Prod.snd = a.allDiagnostics m := by
  have hpackages : m.packages.zipIdx.map Prod.fst = m.packages := List.zipIdx_map_fst 0 m.packages
  have hsnd : ∀ (i : Nat) (ds : List Diagnostic), (ds.map (Prod.mk i)).map Prod.snd = ds := by
    simp [Function.comp_def]
  conv => rhs; rw [allDiagnostics, ← hpackages, List.flatMap_map]
  simp only [attributed, List.map_flatMap, hsnd]

theorem mem_attributed_iff (hpolicy : a.policy = .check denylist) (i : Nat) (d : Diagnostic) :
    (i, d) ∈ a.attributed m ↔ ∃ p, m.packages[i]? = some p ∧ a.Denies denylist m p d := by
  simp only [attributed, List.mem_flatMap, List.mem_map, List.mem_zipIdx_iff_getElem?,
    ← mem_diagnostics_outcome_iff hpolicy]
  constructor
  · rintro ⟨⟨p, j⟩, hp, e, he, heq⟩
    injection heq with hi hd
    subst hi hd
    exact ⟨p, hp, he⟩
  · rintro ⟨p, hp, hd⟩
    exact ⟨(p, i), hp, d, hd, rfl⟩

/-- Package by package, the diagnostics stand in the order of the packages, and those of one
package in the order of positions. -/
theorem pairwise_attributed (hpolicy : a.policy = .check denylist) :
    (a.attributed m).Pairwise fun x y =>
      x.1 < y.1 ∨ x.1 = y.1 ∧ compare x.2.position y.2.position = .lt := by
  rw [attributed, List.pairwise_flatMap]
  constructor
  · intro x _
    rw [List.pairwise_map, diagnostics_outcome_check hpolicy]
    refine ((pairwise_forbiddenCalls a denylist m x.1).filter _).imp ?_
    exact fun hlt => .inr ⟨rfl, hlt⟩
  · have hnumbers : (m.packages.zipIdx.map Prod.snd).Pairwise (· < ·) := by
      rw [List.zipIdx_map_snd]
      exact List.pairwise_lt_range'
    refine (List.pairwise_map.1 hnumbers).imp ?_
    intro x y hlt s hs t ht
    obtain ⟨d, -, rfl⟩ := List.mem_map.1 hs
    obtain ⟨e, -, rfl⟩ := List.mem_map.1 ht
    exact .inl hlt

/-- **Each diagnostic of a check comes from one package.** -/
theorem attributes_report (hpolicy : a.policy = .check denylist) :
    a.Attributes denylist m (a.report m) (a.sortedAttributed m) where
  diagnostics := by
    rw [diagnostics_report, ← map_snd_attributed]
    exact (map_stableSort fun _ _ _ _ => rfl).symm
  contributed i d := by
    rw [← mem_attributed_iff hpolicy]
    exact (stableSort_perm _).mem_iff
  sorted := by
    refine (pairwise_stableSort_of_pairwise ?_ ?_ (pairwise_attributed hpolicy)).imp ?_
    · exact fun x y z => Position.le_trans _ _ _
    · exact fun x y => Position.le_total _ _
    · rintro x y ⟨hle, halike⟩
      by_cases hge : y.2.position.le x.2.position = true
      · rcases halike hge with hlt | ⟨-, hlt⟩
        · exact .inr ⟨Position.le_antisymm hle hge, hlt⟩
        · exact .inl hlt
      · exact .inl (Position.lt_of_not_le hge)

/-! ## The report with one more comment -/

/-- The diagnostic comes from the package and stands below the comment. -/
def isSilenced (k : Nat) (c : Comment) (x : Nat × Diagnostic) : Bool :=
  x.1 = k ∧ c.isAbove x.2.position

section Silenced

variable {k : Nat} {p : Package} {c : Comment} (hpolicy : a.policy = .check denylist)
  (hp : m.packages[k]? = some p) (hreports : p.ReportsIn c.file) (hline : 1 ≤ c.line)
  (htext : (permitReason? c.text).isSome = true)
include hpolicy hp hreports hline htext

/-- What each package adds: only the one with the new comment adds something else. -/
theorem outcome_addComment {x : Package × Nat} (hx : x ∈ m.packages.zipIdx) :
    (a.outcome m (if x.2 = k then x.1.addComment c else x.1)).diagnostics =
        (a.outcome m x.1).diagnostics.filter (fun d => !isSilenced k c (x.2, d)) ∧
      (a.outcome m (if x.2 = k then x.1.addComment c else x.1)).suppressed =
        (a.outcome m x.1).suppressed +
          (a.outcome m x.1).diagnostics.countP fun d => isSilenced k c (x.2, d) := by
  by_cases hk : x.2 = k
  · have hxp : x.1 = p := by
      rw [List.mem_zipIdx_iff_getElem?, hk, hp] at hx
      exact (Option.some.inj hx).symm
    rw [if_pos hk, hxp, diagnostics_outcome_addComment hpolicy hreports hline htext,
      suppressed_outcome_addComment hpolicy hreports hline htext]
    simp [isSilenced, hk]
  · simp [isSilenced, hk]

theorem attributed_addComment :
    a.attributed (m.addComment k c) = (a.attributed m).filter fun x => !isSilenced k c x := by
  simp only [attributed, Model.zipIdx_packages_addComment, List.flatMap_map, List.filter_flatMap,
    outcome_model_addComment]
  refine List.flatMap_congr fun x hx => ?_
  rw [(outcome_addComment hpolicy hp hreports hline htext hx).1, List.filter_map]
  rfl

theorem suppressed_report_addComment :
    (a.report (m.addComment k c)).suppressed =
      (a.report m).suppressed + (a.sortedAttributed m).countP (isSilenced k c) := by
  have hsum : ∀ n : Model, (a.report n).suppressed =
      (n.packages.zipIdx.map fun x => (a.outcome n x.1).suppressed).sum := by
    intro n
    have hpackages : n.packages.zipIdx.map Prod.fst = n.packages := List.zipIdx_map_fst 0 n.packages
    conv => lhs; rw [suppressed_report, ← hpackages, List.map_map]
    rfl
  rw [hsum, hsum, sortedAttributed, (stableSort_perm _).countP_eq, attributed, List.countP_flatMap,
    ← List.sum_map_add, Model.zipIdx_packages_addComment, List.map_map]
  refine congrArg List.sum (List.map_congr_left fun x hx => ?_)
  simp only [Function.comp_apply, outcome_model_addComment, List.countP_map]
  exact (outcome_addComment hpolicy hp hreports hline htext hx).2

theorem diagnostics_report_addComment :
    (a.report (m.addComment k c)).diagnostics =
      ((a.sortedAttributed m).filter fun x => !isSilenced k c x).map Prod.snd := by
  rw [(attributes_report hpolicy).diagnostics, sortedAttributed,
    attributed_addComment hpolicy hp hreports hline htext, stableSort_filter]
  · rfl
  · exact fun x y z => Position.le_trans _ _ _
  · exact fun x y => Position.le_total _ _

/-- The report with one more comment. -/
theorem report_addComment :
    a.report (m.addComment k c) =
      { a.report m with
        diagnostics := ((a.sortedAttributed m).filter fun x => !isSilenced k c x).map Prod.snd
        suppressed :=
          (a.report m).suppressed + (a.sortedAttributed m).countP (isSilenced k c) } := by
  have hmode : (a.report (m.addComment k c)).mode = (a.report m).mode := by
    rw [mode_report, mode_report]
  have hpackages :
      (a.report (m.addComment k c)).packagesChecked = (a.report m).packagesChecked := by
    rw [packagesChecked_report, packagesChecked_report]
    exact List.length_modify ..
  have hfiles : (a.report (m.addComment k c)).filesChecked = (a.report m).filesChecked := by
    rw [filesChecked_report, filesChecked_report, m.map_packages_addComment k c fun _ => rfl]
  have hdiagnostics := diagnostics_report_addComment hpolicy hp hreports hline htext
  have hsuppressed := suppressed_report_addComment hpolicy hp hreports hline htext
  simp only [← hmode, ← hdiagnostics, ← hpackages, ← hfiles, ← hsuppressed]

end Silenced

/-- **A comment that permits calls takes the diagnostics below it out of the report, and no
others.** -/
theorem exists_silenced {k : Nat} {p : Package} {c : Comment} {loader : Loader}
    (hpolicy : a.policy = .check denylist) (hlisted : denylist.isEmpty = false)
    (hm : m.isConsistent = true) (hload : a.loader a.specs a.dir = .ok m)
    (hload' : loader a.specs a.dir = .ok (m.addComment k c)) (hp : m.packages[k]? = some p)
    (hreports : p.ReportsIn c.file) (hline : 1 ≤ c.line)
    (htext : (permitReason? c.text).isSome = true) :
    ∃ r tagged, a.analyze = .ok r ∧ a.Attributes denylist m r tagged ∧
      { a with loader }.analyze = .ok
        { r with
          diagnostics := (tagged.filter fun x => !isSilenced k c x).map Prod.snd
          suppressed := r.suppressed + tagged.countP (isSilenced k c) } := by
  have hbusy : a.isIdle = false := by
    rw [isIdle, hpolicy]
    exact hlisted
  have hm' : (m.addComment k c).isConsistent = true :=
    Model.isConsistent_of_uncommented_eq (m.uncommented_addComment k c) hm
  refine ⟨_, _, analyze_eq_report hbusy hload hm, attributes_report hpolicy, ?_⟩
  rw [analyze_eq_report (a := { a with loader }) hbusy hload' hm',
    ← report_addComment hpolicy hp hreports hline htext]
  rfl

/-- A comment that permits the call in line 2 of `a.go`, with another spelling of the file. -/
def secondLineKnown : Comment :=
  ⟨⟨"a.go/"⟩, 1, "// OK: known too"⟩

theorem exists_silenced_sharedPosition :
    (Denylist.ofList [("func lib.f()", "")]).isEmpty = false ∧
      sharedPosition.isConsistent = true ∧
      (∃ p, sharedPosition.packages[0]? = some p ∧ p.ReportsIn secondLineKnown.file) ∧
      (permitReason? secondLineKnown.text).isSome = true ∧
      ∃ r tagged, (checkOf sharedPosition (.ofList [("func lib.f()", "")])).analyze = .ok r ∧
        (checkOf sharedPosition (.ofList [("func lib.f()", "")])).Attributes
          (.ofList [("func lib.f()", "")]) sharedPosition r tagged ∧
        (checkOf (sharedPosition.addComment 0 secondLineKnown)
            (.ofList [("func lib.f()", "")])).analyze = .ok
          { r with
            diagnostics := (tagged.filter fun x => !isSilenced 0 secondLineKnown x).map Prod.snd
            suppressed := r.suppressed + tagged.countP (isSilenced 0 secondLineKnown) } := by
  have hlisted : (Denylist.ofList [("func lib.f()", "")]).isEmpty = false := rfl
  have hconsistent : sharedPosition.isConsistent = true := by decide
  have hreports : ∃ p, sharedPosition.packages[0]? = some p ∧
      p.ReportsIn secondLineKnown.file := by
    refine ⟨_, rfl, ?_⟩
    unfold Package.ReportsIn
    decide
  have htext : (permitReason? secondLineKnown.text).isSome = true := by decide
  obtain ⟨p, hp, hp'⟩ := hreports
  exact ⟨hlisted, hconsistent, ⟨p, hp, hp'⟩, htext,
    exists_silenced (a := checkOf sharedPosition (.ofList [("func lib.f()", "")])) rfl hlisted
      hconsistent rfl rfl hp hp' (by decide) htext⟩

/-- The other package has a call at the same position, and that one stays in the report. -/
example :
    let a := checkOf sharedPosition (.ofList [("func lib.f()", "")])
    let r := a.report sharedPosition
    let r' := a.report (sharedPosition.addComment 0 secondLineKnown)
    (r.diagnostics.length, r.suppressed) = (2, 1) ∧
      (r'.diagnostics.length, r'.suppressed) = (1, 2) := by
  decide +kernel

end Analyzer

end CallPolicy
