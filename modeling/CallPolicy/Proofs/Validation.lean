import CallPolicy.Proofs.Loading
import CallPolicy.Proofs.Outcome

/-!
# Every loaded model is consistent

Each file is validated when it is loaded, and merging consistent models gives a consistent one.  So
the validation of the whole, which comes after loading, never fails: a number that dangles is always
reported for one file, the first one that does not load.

## Main statements

* `FileTree.validate_of_loadModels` — a loaded model passes validation.
* `FileTree.loadModels_eq_inconsistent_iff` — loading reports a dangling number exactly if a file
  that the loader comes to has one.
* `Analyzer.analyze_eq_inconsistent_iff` — and so does an analysis.
* `dangling_only_in_files` — all of it together, with what merging does to validation.
-/

namespace CallPolicy

/-! ## Validation -/

namespace Model

theorem validate_eq_ok_iff (m : Model) : m.validate = .ok m ↔ m.InRange := by
  constructor
  · exact fun h => (inRange_of_validate h).2
  · exact fun h => validate_of_isConsistent ((isConsistent_iff m).2 h)

theorem validate_eq_error_iff (m : Model) (e : ResolveError) :
    m.validate = .error e ↔ ∃ what, m.findDangling? = some what ∧ e = .inconsistent what := by
  unfold validate
  cases m.findDangling? with
  | none => simp
  | some what => simp [eq_comm]

/-- What is merged into a model that passes validation decides whether the result passes. -/
theorem validate_merge_iff {a b : Model} (ha : a.validate = .ok a) :
    (a.merge b).validate = .ok (a.merge b) ↔ b.validate = .ok b := by
  rw [validate_eq_ok_iff] at ha ⊢
  rw [validate_eq_ok_iff]
  exact inRange_merge_iff ha

end Model

namespace FileTree

variable {t : FileTree} {specs : List String} {dir : Path}

/-- **A loaded model passes validation.** -/
theorem validate_of_loadModels {m : Model} (h : t.loadModels specs dir = .ok m) :
    m.validate = .ok m := by
  obtain ⟨found, files, models, hrun⟩ := exists_loaded h
  have hranges : ∀ model ∈ models, model.InRange := by
    intro model hmodel
    obtain ⟨file, -, hfile⟩ := exists_mem_of_forall₂ hrun.loaded hmodel
    exact inRange_of_loadModel hfile
  rw [Model.validate_eq_ok_iff, hrun.merged]
  exact Model.inRange_foldl_merge Model.inRange_empty hranges

/-! ## First spellings -/

/-- The first spellings of paths are one list. -/
theorem FirstSpellings.eq {paths files files' : List Path} (h : FirstSpellings paths files)
    (h' : FirstSpellings paths files') : files = files' :=
  OrderedMap.eq_of_pairwise_lt h.sorted h'.sorted fun p => (h.mem_iff p).trans (h'.mem_iff p).symm

/-! ## Runs of the loader that fail -/

/-- A search that finds nothing reports no dangling number. -/
theorem discover_ne_inconsistent (spec : String) (what : Dangling) :
    t.discover spec dir ≠ .error (.inconsistent what) := by
  intro h
  unfold discover at h
  split at h <;> cases h

theorem collect_ne_inconsistent (files : FileSet) (what : Dangling) :
    t.collect dir specs files ≠ .error (.inconsistent what) := by
  induction specs generalizing files with
  | nil => simp [collect_nil]
  | cons spec specs ih =>
    rw [collect_cons]
    cases hspec : t.discover spec dir with
    | error e =>
      rintro h
      cases h
      exact discover_ne_inconsistent spec what hspec
    | ok found => exact ih _

/-- What is found for each specifier is collected. -/
theorem collect_of_forall₂ {found : List (List Path)} (files : FileSet)
    (h : List.Forall₂ (fun spec paths => t.discover spec dir = .ok paths) specs found) :
    t.collect dir specs files = .ok (files.addAll found.flatten) := by
  induction h generalizing files with
  | nil => exact collect_nil t dir files
  | cons hspec _ ih =>
    rw [collect_cons, hspec]
    exact (ih _).trans (congrArg Except.ok (addAll_append _ _ _))

/-- Merging files stops at the first one that does not load. -/
theorem mergeFiles_eq_error_iff {m : Model} {files : List Path} {e : ResolveError} :
    t.mergeFiles m files = .error e ↔
      ∃ before file after, files = before ++ file :: after ∧
        (∀ earlier ∈ before, ∃ model, t.loadModel earlier = .ok model) ∧
        t.loadModel file = .error e := by
  induction files generalizing m with
  | nil => simp [mergeFiles]
  | cons first rest ih =>
    rw [mergeFiles]
    cases hfirst : t.loadModel first with
    | error e' =>
      constructor
      · intro h
        cases h
        exact ⟨[], first, rest, rfl, by simp, hfirst⟩
      · rintro ⟨before, file, after, hfiles, hbefore, hfile⟩
        cases before with
        | nil =>
          injection hfiles with hhead
          rw [← hhead, hfirst] at hfile
          exact hfile
        | cons earlier before =>
          injection hfiles with hhead
          obtain ⟨model, hmodel⟩ := hbefore earlier List.mem_cons_self
          rw [← hhead, hfirst] at hmodel
          cases hmodel
    | ok model =>
      refine ih.trans ⟨?_, ?_⟩
      · rintro ⟨before, file, after, rfl, hbefore, hfile⟩
        exact ⟨first :: before, file, after, rfl,
          List.forall_mem_cons.2 ⟨⟨model, hfirst⟩, hbefore⟩, hfile⟩
      · rintro ⟨before, file, after, hfiles, hbefore, hfile⟩
        cases before with
        | nil =>
          injection hfiles with hhead
          rw [← hhead, hfirst] at hfile
          cases hfile
        | cons earlier before =>
          injection hfiles with hhead htail
          exact ⟨before, file, after, htail, (List.forall_mem_cons.1 hbefore).2, hfile⟩

/-- A file is rejected for a dangling number exactly if the model in its own text has it. -/
theorem loadModel_eq_inconsistent_iff (file : Path) (what : Dangling) :
    t.loadModel file = .error (.inconsistent what) ↔
      ∃ text m, t.readText file = .ok text ∧ Model.parse? text = some m ∧
        m.findDangling? = some what := by
  unfold loadModel
  cases htext : t.readText file with
  | error cause => simp
  | ok text =>
    cases hparse : Model.parse? text with
    | none => simp [hparse]
    | some m =>
      cases hvalid : m.validate with
      | error e =>
        obtain ⟨what', hwhat, rfl⟩ := (m.validate_eq_error_iff e).1 hvalid
        simp [hparse, hvalid, hwhat, Except.map]
      | ok m' =>
        have hnone : m.findDangling? ≠ some what := by
          intro hwhat
          rw [(m.validate_eq_error_iff _).2 ⟨what, hwhat, rfl⟩] at hvalid
          cases hvalid
        simp [hparse, hvalid, hnone, Except.map]

/-- The loader comes to `file`, after others that load, and rejects it for a dangling number. -/
structure Rejects (t : FileTree) (specs : List String) (dir : Path) (file : Path)
    (what : Dangling) : Prop where
  /-- The specifiers name files, and those before `file` load. -/
  reached : ∃ found before after,
    List.Forall₂ (fun spec paths => t.discover spec dir = .ok paths) (effectiveSpecs specs) found ∧
    FirstSpellings found.flatten (before ++ file :: after) ∧
    ∀ earlier ∈ before, ∃ model, t.loadModel earlier = .ok model
  /-- The file alone is not loaded. -/
  rejected : t.loadModel file = .error (.inconsistent what)
  /-- The number dangles in what the file itself holds. -/
  dangling : ∃ text m, t.readText file = .ok text ∧ Model.parse? text = some m ∧
    m.findDangling? = some what

/-- **Loading reports a dangling number exactly if a file that the loader comes to has one.** -/
theorem loadModels_eq_inconsistent_iff (what : Dangling) :
    t.loadModels specs dir = .error (.inconsistent what) ↔
      ∃ file, t.Rejects specs dir file what := by
  constructor
  · intro h
    unfold loadModels at h
    cases hcollect : t.collect dir (effectiveSpecs specs) .empty with
    | error e =>
      rw [hcollect] at h
      cases h
      exact absurd hcollect (collect_ne_inconsistent _ what)
    | ok files =>
      rw [hcollect] at h
      obtain ⟨found, hfound, rfl⟩ := exists_of_collect hcollect
      obtain ⟨before, file, after, hfiles, hbefore, hfile⟩ := mergeFiles_eq_error_iff.1 h
      have hspelled := firstSpellings_values found.flatten
      rw [hfiles] at hspelled
      exact ⟨file, ⟨found, before, after, hfound, hspelled, hbefore⟩, hfile,
        (loadModel_eq_inconsistent_iff file what).1 hfile⟩
  · rintro ⟨file, ⟨found, before, after, hfound, hspelled, hbefore⟩, hfile, -⟩
    unfold loadModels
    rw [collect_of_forall₂ _ hfound]
    refine mergeFiles_eq_error_iff.2 ⟨before, file, after, ?_, hbefore, hfile⟩
    exact (firstSpellings_values found.flatten).eq hspelled

end FileTree

/-! ## Analyses -/

/-- **An analysis of files reports a dangling number exactly if it loads them and one of them is
rejected for it.** -/
theorem Analyzer.analyze_eq_inconsistent_iff {a : Analyzer} {t : FileTree}
    (hloader : a.loader = t.loadModels) (what : Dangling) :
    a.analyze = .error (.inconsistent what) ↔
      a.isIdle = false ∧ ∃ file, t.Rejects a.specs a.dir file what := by
  unfold analyze
  rw [hloader, ← FileTree.loadModels_eq_inconsistent_iff]
  cases hidle : a.isIdle with
  | true => simp
  | false =>
    cases hload : t.loadModels a.specs a.dir with
    | error e => simp
    | ok m =>
      -- what was loaded passes, so this second validation reports nothing
      simp [FileTree.validate_of_loadModels hload, Except.map]

/-- **Numbers dangle in files only.**  Merging keeps validity and brings none about, so whatever is
loaded passes validation, and an analysis reports a dangling number exactly if a file is rejected
for it. -/
theorem dangling_only_in_files :
    (∀ a b : Model, a.validate = .ok a →
      ((a.merge b).validate = .ok (a.merge b) ↔ b.validate = .ok b)) ∧
    (∀ (t : FileTree) (specs : List String) (dir : Path) (m : Model),
      t.loadModels specs dir = .ok m → m.validate = .ok m) ∧
    ∀ (a : Analyzer) (t : FileTree) (what : Dangling), a.loader = t.loadModels →
      (a.analyze = .error (.inconsistent what) ↔
        a.isIdle = false ∧ ∃ file, t.Rejects a.specs a.dir file what) := by
  refine ⟨?_, ?_, ?_⟩
  · exact fun a b ha => Model.validate_merge_iff ha
  · exact fun t specs dir m h => FileTree.validate_of_loadModels h
  · exact fun a t what hloader => Analyzer.analyze_eq_inconsistent_iff hloader what

/-- A model with one function. -/
def oneFunction : Model where
  symbols := [⟨"f", ⟨"m"⟩, .function {}⟩]

/-- A model with a use of a symbol that it does not hold. -/
def missingSymbol : Model where
  packages := [{ path := "p", uses := [⟨⟨⟨"x"⟩, 1, 1⟩, 0⟩] }]

/-- A file with an empty package, and one with a use of a symbol that it does not hold. -/
def secondFileDangling : FileTree where
  root := .dir
    [("a.callgate.json", .file (some "\x7b\"packages\":[\x7b\"path\":\"p\"\x7d]\x7d")),
      ("b.callgate.json", .file (some ("\x7b\"packages\":[\x7b\"path\":\"q\",\"uses\":[" ++
        "\x7b\"file\":\"x\",\"line\":1,\"column\":1,\"symbol\":0\x7d]\x7d]\x7d")))]

/-- The analysis of both files. -/
def listSecondFileDangling : Analyzer where
  loader := secondFileDangling.loadModels
  dir := ⟨"/"⟩
  specs := [allPackages]
  policy := .listAll
  origins := .empty
  exclude := []
  jobs := none

theorem dangling_only_in_files_secondFile :
    (oneFunction.validate = .ok oneFunction ∧ missingSymbol.validate ≠ .ok missingSymbol ∧
      (oneFunction.merge missingSymbol).validate ≠ .ok (oneFunction.merge missingSymbol)) ∧
    (∃ m, secondFileDangling.loadModels ["a.callgate.json"] ⟨"/"⟩ = .ok m ∧
      m.validate = .ok m) ∧
    listSecondFileDangling.analyze = .error (.inconsistent (.symbol 0 ⟨⟨"x"⟩, 1, 1⟩)) ∧
    ∃ file, secondFileDangling.Rejects [allPackages] ⟨"/"⟩ file (.symbol 0 ⟨⟨"x"⟩, 1, 1⟩) := by
  obtain ⟨hmerge, hload, hanalyze⟩ := dangling_only_in_files
  have hone : oneFunction.validate = .ok oneFunction := rfl
  have hmissing : missingSymbol.validate ≠ .ok missingSymbol := nofun
  have hloaded : (secondFileDangling.loadModels ["a.callgate.json"] ⟨"/"⟩).toBool = true := by
    decide +kernel
  have hreport : listSecondFileDangling.analyze =
      .error (.inconsistent (.symbol 0 ⟨⟨"x"⟩, 1, 1⟩)) := by
    decide +kernel
  refine ⟨⟨hone, hmissing, fun h => hmissing ((hmerge _ _ hone).1 h)⟩, ?_, hreport, ?_⟩
  · cases h : secondFileDangling.loadModels ["a.callgate.json"] ⟨"/"⟩ with
    | ok m => exact ⟨m, rfl, hload _ _ _ m h⟩
    | error e =>
      rw [h] at hloaded
      cases hloaded
  · exact ((hanalyze _ _ _ rfl).1 hreport).2

end CallPolicy
