import CallPolicy.Proofs.Loading
import CallPolicy.Proofs.Merging
import CallPolicy.Proofs.Outcome

/-!
# Reports on several files

A model that was loaded from several files is analyzed as a whole: the numbers in it are shifted,
the packages of all files stand in one list, and the diagnostics are sorted once.  The outcome of a
package depends on none of this, so the report is the one that the reports on the single files add
up to.

## Main statements

* `outcomes_merge`, `outcomes_foldl_merge` — packages have the outcomes that they have in their own
  model.
* `exists_composed` — the report on all files is put together from those on each of them.
-/

namespace CallPolicy

/-! ## Reports put together -/

/-- The report that several ones add up to, in the order of positions. -/
def Report.combine (mode : Mode) (reports : List Report) : Report :=
  Report.sort
    { mode
      diagnostics := reports.flatMap Report.diagnostics
      packagesChecked := (reports.map Report.packagesChecked).sum
      filesChecked := (reports.map Report.filesChecked).sum
      suppressed := (reports.map Report.suppressed).sum }

/-- Reports of one mode add up to one that fails exactly if one of them does. -/
theorem Report.verdict_combine_iff {mode : Mode} {reports : List Report}
    (hmode : ∀ r ∈ reports, r.mode = mode) :
    (Report.combine mode reports).verdict = .fail ↔ ∃ r ∈ reports, r.verdict = .fail := by
  have hdiagnostics : ∀ d, d ∈ (Report.combine mode reports).diagnostics ↔
      ∃ r ∈ reports, d ∈ r.diagnostics := by
    intro d
    rw [combine, sort, (stableSort_perm _).mem_iff, List.mem_flatMap]
  rw [verdict_eq_fail_iff]
  simp only [hdiagnostics, verdict_eq_fail_iff]
  constructor
  · rintro ⟨hcheck, d, r, hr, hd⟩
    exact ⟨r, hr, (hmode r hr).trans hcheck, d, hd⟩
  · rintro ⟨r, hr, hcheck, d, hd⟩
    exact ⟨(hmode r hr).symm.trans hcheck, d, r, hr, hd⟩

namespace Analyzer

variable {a : Analyzer}

/-! ## Outcomes in merged models -/

/-- The outcomes of the packages of a model. -/
def outcomes (a : Analyzer) (m : Model) : List PackageOutcome :=
  m.packages.map (a.outcome m)

/-- What a package adds depends on its references, its files and its comments. -/
theorem outcome_congr {m m' : Model} {p p' : Package}
    (hreferences : m'.references a.origins p' = m.references a.origins p)
    (hfiles : p'.files = p.files) (hcomments : p'.comments = p.comments) :
    a.outcome m' p' = a.outcome m p := by
  have htable : CommentTable.ofPackage p' = CommentTable.ofPackage p := by
    unfold CommentTable.ofPackage
    rw [hfiles, hcomments]
  unfold outcome includedReferences
  rw [hreferences, hfiles, htable]

/-- The packages of a merged model have the outcomes that they have in their own model. -/
theorem outcomes_merge {m : Model} (b : Model) (hm : m.InRange) :
    a.outcomes (m.merge b) = a.outcomes m ++ a.outcomes b := by
  have hleft : m.packages.map (a.outcome (m.merge b)) = a.outcomes m := by
    refine List.map_congr_left ?_
    intro p hp
    exact outcome_congr (Model.references_merge_left a.origins hm hp) rfl rfl
  have hright : (b.packages.map (Package.shiftSymbols m.symbols.length)).map
      (a.outcome (m.merge b)) = a.outcomes b := by
    rw [List.map_map]
    refine List.map_congr_left ?_
    intro p _
    exact outcome_congr (Model.references_merge_right m b a.origins p) rfl rfl
  show (m.packages ++ b.packages.map _).map _ = _
  rw [List.map_append, hleft, hright]

/-- The same of any number of models merged one after the other. -/
theorem outcomes_foldl_merge {m : Model} {models : List Model} (hm : m.InRange)
    (hmodels : ∀ b ∈ models, b.InRange) :
    (models.foldl Model.merge m).InRange ∧
      a.outcomes (models.foldl Model.merge m) = a.outcomes m ++ models.flatMap a.outcomes := by
  refine ⟨Model.inRange_foldl_merge hm hmodels, ?_⟩
  induction models generalizing m with
  | nil => exact (List.append_nil _).symm
  | cons b rest ih =>
    rw [List.forall_mem_cons] at hmodels
    have hmerged : (m.merge b).InRange := (Model.inRange_merge_iff hm).2 hmodels.1
    rw [List.foldl_cons, ih hmerged hmodels.2, outcomes_merge b hm, List.flatMap_cons,
      List.append_assoc]

/-! ## Reports in merged models -/

/-- A report is put together from the outcomes of the packages. -/
theorem report_eq (a : Analyzer) (m : Model) :
    a.report m = Report.sort
      { mode := a.policy.mode
        diagnostics := (a.outcomes m).flatMap PackageOutcome.diagnostics
        packagesChecked := (a.outcomes m).length
        filesChecked := ((a.outcomes m).map PackageOutcome.files).sum
        suppressed := ((a.outcomes m).map PackageOutcome.suppressed).sum } := by
  rw [report, foldl_addOutcome]
  simp [Report.empty, outcomes]

/-- The diagnostics of several models, sorted together, are those of their reports sorted again. -/
theorem stableSort_flatMap_outcomes (models : List Model) :
    stableSort (fun d e => d.position.le e.position)
        ((models.flatMap a.outcomes).flatMap PackageOutcome.diagnostics) =
      stableSort (fun d e => d.position.le e.position)
        ((models.map a.report).flatMap Report.diagnostics) := by
  have hparts : (models.flatMap a.outcomes).flatMap PackageOutcome.diagnostics =
      (models.map fun b => (a.outcomes b).flatMap PackageOutcome.diagnostics).flatten := by
    rw [List.flatMap_assoc, List.flatMap_def]
  have hsorted : (models.map a.report).flatMap Report.diagnostics =
      (models.map fun b => (a.outcomes b).flatMap PackageOutcome.diagnostics).flatMap
        (stableSort fun d e => d.position.le e.position) := by
    rw [List.flatMap_map, List.flatMap_map]
    refine congrArg (models.flatMap ·) (funext fun b => ?_)
    rw [report_eq]
    rfl
  rw [hparts, hsorted]
  refine (stableSort_flatMap_stableSort ?_ ?_ _).symm
  · exact fun d e f => Position.le_trans _ _ _
  · exact fun d e => Position.le_total _ _

/-- What a report counts of the outcomes adds up over several models. -/
theorem sum_flatMap_outcomes {count : Report → Nat} {amount : PackageOutcome → Nat}
    (hcount : ∀ m, count (a.report m) = ((a.outcomes m).map amount).sum) (models : List Model) :
    ((models.flatMap a.outcomes).map amount).sum = ((models.map a.report).map count).sum := by
  induction models with
  | nil => rfl
  | cons b rest ih =>
    rw [List.flatMap_cons, List.map_append, List.sum_append, ih, ← hcount]
    rfl

/-- **A report whose outcomes are those of several models is put together from their reports.** -/
theorem report_eq_combine {m : Model} {models : List Model}
    (h : a.outcomes m = models.flatMap a.outcomes) :
    a.report m = Report.combine a.policy.mode (models.map a.report) := by
  have hpackages : (models.flatMap a.outcomes).length =
      ((models.map a.report).map Report.packagesChecked).sum := by
    have hcount : ∀ b, (a.report b).packagesChecked = ((a.outcomes b).map fun _ => 1).sum := by
      intro b
      rw [report_eq]
      simp [Report.sort]
    rw [← sum_flatMap_outcomes hcount]
    simp
  have hfiles : ((models.flatMap a.outcomes).map PackageOutcome.files).sum =
      ((models.map a.report).map Report.filesChecked).sum :=
    sum_flatMap_outcomes (fun b => by rw [report_eq]; rfl) models
  have hsuppressed : ((models.flatMap a.outcomes).map PackageOutcome.suppressed).sum =
      ((models.map a.report).map Report.suppressed).sum :=
    sum_flatMap_outcomes (fun b => by rw [report_eq]; rfl) models
  rw [report_eq, h]
  unfold Report.combine Report.sort
  rw [stableSort_flatMap_outcomes, hpackages, hfiles, hsuppressed]

/-! ## Files -/

/-- The analysis of one file, with the settings of `a`. -/
def onFile (a : Analyzer) (t : FileTree) (file : Path) : Analyzer :=
  { a with loader := fun _ _ => t.loadModel file }

/-- The analysis of one file gives the report on its model. -/
theorem analyze_onFile {t : FileTree} {file : Path} {m : Model} (hbusy : a.isIdle = false)
    (hload : t.loadModel file = .ok m) : (a.onFile t file).analyze = .ok (a.report m) := by
  have hconsistent : m.isConsistent = true :=
    (Model.isConsistent_iff m).2 (FileTree.inRange_of_loadModel hload)
  have hreport : (a.onFile t file).report m = a.report m := rfl
  rw [← hreport]
  exact analyze_eq_report hbusy hload hconsistent

/-- The report of `a` is put together from those on the files of `t` that its specifiers name. -/
structure Composed (a : Analyzer) (t : FileTree) (found : List (List Path)) (files : List Path)
    (reports : List Report) : Prop where
  /-- What each specifier names. -/
  discovered : List.Forall₂ (fun spec paths => t.discover spec a.dir = .ok paths)
    (FileTree.effectiveSpecs a.specs) found
  /-- The files among it, in the order of their components. -/
  spelled : FileTree.FirstSpellings found.flatten files
  /-- What is reported on each file alone. -/
  reported : List.Forall₂ (fun file r => (a.onFile t file).analyze = .ok r) files reports
  /-- The report on all of them. -/
  combined : a.analyze = .ok (Report.combine a.policy.mode reports)
  verdict : (Report.combine a.policy.mode reports).verdict = .fail ↔
    ∃ r ∈ reports, r.verdict = .fail

/-- **The report on all files is put together from those on each of them.** -/
theorem exists_composed {t : FileTree} {m : Model} (hloader : a.loader = t.loadModels)
    (hbusy : a.isIdle = false) (hload : t.loadModels a.specs a.dir = .ok m) :
    ∃ found files reports, a.Composed t found files reports := by
  obtain ⟨found, files, models, hrun⟩ := FileTree.exists_loaded hload
  have hranges : ∀ model ∈ models, model.InRange := by
    intro model hmodel
    obtain ⟨file, -, hfile⟩ := exists_mem_of_forall₂ hrun.loaded hmodel
    exact FileTree.inRange_of_loadModel hfile
  obtain ⟨hrange, houtcomes⟩ := outcomes_foldl_merge (a := a) Model.inRange_empty hranges
  rw [← hrun.merged] at hrange houtcomes
  refine ⟨found, files, models.map a.report, hrun.discovered, hrun.spelled, ?_, ?_, ?_⟩
  · rw [List.forall₂_map_right_iff]
    exact hrun.loaded.imp fun file model hfile => analyze_onFile hbusy hfile
  · rw [← report_eq_combine houtcomes]
    exact analyze_eq_report hbusy (by rw [hloader, hload]) ((Model.isConsistent_iff m).2 hrange)
  · refine Report.verdict_combine_iff ?_
    intro r hr
    obtain ⟨model, -, rfl⟩ := List.mem_map.1 hr
    exact mode_report a model

/-- The text of a model with one call. -/
def oneCall : String :=
  "\x7b\"packages\":[\x7b\"path\":\"p\",\"uses\":[\x7b\"file\":\"/x\",\"line\":2,\"column\":1," ++
    "\"symbol\":0\x7d]\x7d],\"symbols\":[\x7b\"name\":\"f\",\"kind\":\"function\"," ++
    "\"signature\":\x7b\x7d\x7d]\x7d"

/-- Two files with calls at one position. -/
def twoFiles : FileTree where
  root := .dir
    [("w", .dir
      [("a.callgate.json", .file (some oneCall)),
        ("sub", .dir [("b.callgate.json", .file (some oneCall))])])]

/-- A check of both files, one of which is named twice. -/
def checkTwoFiles : Analyzer where
  loader := twoFiles.loadModels
  dir := ⟨"/w"⟩
  specs := ["sub", allPackages]
  policy := .check (.ofList [("func f()", "")])
  origins := .empty
  exclude := []
  jobs := none

theorem exists_composed_twoFiles :
    checkTwoFiles.isIdle = false ∧
      (∃ m, twoFiles.loadModels checkTwoFiles.specs checkTwoFiles.dir = .ok m) ∧
      ∃ found files reports, checkTwoFiles.Composed twoFiles found files reports := by
  have hok : (twoFiles.loadModels checkTwoFiles.specs checkTwoFiles.dir).toBool = true := by
    decide +kernel
  obtain ⟨m, hload⟩ : ∃ m, twoFiles.loadModels checkTwoFiles.specs checkTwoFiles.dir = .ok m := by
    cases h : twoFiles.loadModels checkTwoFiles.specs checkTwoFiles.dir with
    | ok m => exact ⟨m, rfl⟩
    | error e =>
      rw [h] at hok
      cases hok
  exact ⟨rfl, ⟨m, hload⟩, exists_composed rfl rfl hload⟩

end Analyzer

end CallPolicy
