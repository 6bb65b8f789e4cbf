import CallPolicy.CommandLine.Run
import CallPolicy.Proofs.Composition
import CallPolicy.Proofs.JsonText
import CallPolicy.Proofs.Words

/-!
# What the end of a run tells

The exit status of a run and what it prints tell the same thing.  Whatever can fail fails before
anything is printed, so a report that was printed is the report of the run, and the status tells its
verdict.  Printed as JSON, the report can be read back from the output.

## Main statements

* `exists_of_report` — a run with a report has made an analysis of the files of its tree.
* `Report.parse?_pretty` — a report is read back from its JSON text.
* `run_tells` — status and output of a run with text output, and of one with JSON output.
-/

namespace CallPolicy

/-! ## Reports of an analysis -/

/-- An analysis that succeeds has found nothing to look for, or reports on a model that was
loaded. -/
theorem Analyzer.cases_of_analyze {a : Analyzer} {r : Report} (h : a.analyze = .ok r) :
    r = .empty a.policy.mode ∨ ∃ m, a.loader a.specs a.dir = .ok m ∧ r = a.report m := by
  unfold analyze at h
  split at h
  · cases h
    exact .inl rfl
  · cases hload : a.loader a.specs a.dir with
    | error e => simp [hload] at h
    | ok m =>
      cases hvalid : m.validate with
      | error e => simp [hload, hvalid, Except.map] at h
      | ok m' =>
        obtain ⟨rfl, -⟩ := Model.inRange_of_validate hvalid
        simp only [hload, hvalid, Except.map, Except.ok.injEq] at h
        exact .inr ⟨m, rfl, h.symm⟩

theorem Analyzer.mode_of_analyze {a : Analyzer} {r : Report} (h : a.analyze = .ok r) :
    r.mode = a.policy.mode := by
  rcases cases_of_analyze h with rfl | ⟨m, -, rfl⟩
  · rfl
  · exact mode_report a m

theorem Analyzer.hasWords_of_analyze {a : Analyzer} {t : FileTree} {r : Report}
    (hloader : a.loader = t.loadModels) (h : a.analyze = .ok r) :
    ∀ d ∈ r.diagnostics, d.position.HasWords := by
  rcases cases_of_analyze h with rfl | ⟨m, hload, rfl⟩
  · exact List.forall_mem_nil _
  · rw [hloader] at hload
    exact fun d hd => hasWords_of_mem_report (FileTree.hasWords_of_loadModels hload) hd

namespace Report

/-- Nothing is rendered exactly if there is no diagnostic. -/
theorem render_eq_empty_iff (r : Report) : r.render = "" ↔ r.diagnostics = [] := by
  unfold render
  cases r.diagnostics with
  | nil => simp [renderLines]
  | cons d rest => simp [renderLines]

/-- A report from its JSON text. -/
def parse? (text : String) : Option Report :=
  (Json.parse? text).bind (Report.decode Json.maxDepth)

/-- **A report whose numbers are words is read back from its JSON text.** -/
theorem parse?_pretty {r : Report} (hcounts : r.CountsFit)
    (h : ∀ d ∈ r.diagnostics, d.position.HasWords) :
    parse? (Json.pretty 0 r.encode ++ "\n") = some r := by
  -- a report opens four containers at a time, and a reader takes many more
  have hreadable : r.encode.Readable Json.maxDepth := readable_encode hcounts h 123
  rw [parse?, Json.parse?_pretty hreadable.hasWords, Option.bind_some, decode_encode hreadable]

end Report

namespace CommandLine

variable {env : Environment} {a : Arguments}

/-! ## The report of a run -/

/-- A computation that succeeds has succeeded in its first part. -/
theorem exists_of_bind_eq_ok {ε α β : Type} {first : Except ε α} {next : α → Except ε β} {y : β}
    (h : (first >>= next) = .ok y) : ∃ x, first = .ok x ∧ next x = .ok y := by
  cases first with
  | error e => cases h
  | ok x => exact ⟨x, rfl, h⟩

/-- Whatever the configuration, the analysis loads from the files of the tree and lists all
references exactly if that was asked for. -/
theorem request_of_analysisRequest {request : AnalysisRequest}
    (h : analysisRequest env a = .ok request) :
    request.loader = some env.tree.loadModels ∧ request.listAll = a.printAll := by
  obtain ⟨config, -, h⟩ := exists_of_bind_eq_ok h
  dsimp only at h
  -- both ways to a denylist go on with the same request
  by_cases hall : a.printAll = true
  · rw [if_pos hall] at h
    obtain ⟨denylist, -, h⟩ := exists_of_bind_eq_ok h
    cases h
    exact ⟨rfl, rfl⟩
  · rw [if_neg hall] at h
    obtain ⟨denylist, -, h⟩ := exists_of_bind_eq_ok h
    cases h
    exact ⟨rfl, rfl⟩

/-- The mode of a run. -/
def modeOf (a : Arguments) : Mode :=
  if a.printAll then .listAll else .check

/-- An analysis keeps the loader and the mode that were asked for. -/
theorem analyzer_of_build {request : AnalysisRequest} {workingDir : Path} {analyzer : Analyzer}
    (h : request.build workingDir = .ok analyzer) :
    request.loader = some analyzer.loader ∧ analyzer.policy = request.policy := by
  unfold AnalysisRequest.build at h
  cases hloader : request.loader with
  | none => simp [hloader] at h
  | some loader =>
    cases hglobs : Glob.parseAll (request.exclude ++ request.config.exclude) with
    | error e => simp [hloader, hglobs] at h
    | ok exclude =>
      simp only [hloader, hglobs] at h
      split at h
      · cases h
      · cases h
        exact ⟨rfl, rfl⟩

/-- **A run with a report has made an analysis of the files of its tree, in the mode that the
arguments ask for.** -/
theorem exists_of_report {r : Report} (h : report env a = .ok r) :
    ∃ analyzer : Analyzer, analyzer.loader = env.tree.loadModels ∧
      analyzer.policy.mode = modeOf a ∧ analyzer.analyze = .ok r := by
  unfold report at h
  cases hrequest : analysisRequest env a with
  | error f => simp [hrequest] at h
  | ok request =>
    cases hbuild : request.build env.tree.workingDir with
    | error cause => simp [hrequest, hbuild] at h
    | ok analyzer =>
      cases hanalyze : analyzer.analyze with
      | error cause => simp [hrequest, hbuild, hanalyze] at h
      | ok made =>
        simp only [hrequest, hbuild, hanalyze, Except.ok.injEq] at h
        obtain ⟨hloader, hall⟩ := request_of_analysisRequest hrequest
        obtain ⟨hkept, hpolicy⟩ := analyzer_of_build hbuild
        refine ⟨analyzer, Option.some.inj (hkept.symm.trans hloader), ?_, h ▸ hanalyze⟩
        rw [hpolicy, AnalysisRequest.policy, hall, modeOf]
        cases a.printAll <;> rfl

/-- The report does not depend on how it is printed. -/
theorem report_with_format (env : Environment) (a : Arguments) (format : Option Format) :
    report env { a with format } = report env a := rfl

theorem mode_of_report {r : Report} (h : report env a = .ok r) : r.mode = modeOf a := by
  obtain ⟨analyzer, -, hmode, hanalyze⟩ := exists_of_report h
  rw [Analyzer.mode_of_analyze hanalyze, hmode]

theorem hasWords_of_report {r : Report} (h : report env a = .ok r) :
    ∀ d ∈ r.diagnostics, d.position.HasWords := by
  obtain ⟨analyzer, hloader, -, hanalyze⟩ := exists_of_report h
  exact Analyzer.hasWords_of_analyze hloader hanalyze

/-! ## Status and output -/

theorem outcome_of_error {f : Failure} (h : report env a = .error f) :
    outcome env a = failed f := by
  rw [outcome, h]

theorem outcome_of_ok {r : Report} (h : report env a = .ok r) :
    outcome env a = printed (a.format.getD .text) r := by
  rw [outcome, h]

theorem status_printed (format : Format) (r : Report) :
    (printed format r).status = statusOf r.verdict := by
  cases format <;> rfl

theorem statusOf_eq_one_iff (r : Report) :
    statusOf r.verdict = 1 ↔ r.mode = .check ∧ r.diagnostics ≠ [] := by
  have hmem : r.diagnostics ≠ [] ↔ ∃ d, d ∈ r.diagnostics :=
    ⟨List.exists_mem_of_ne_nil _, fun ⟨_, hd⟩ => List.ne_nil_of_mem hd⟩
  rw [hmem, ← r.verdict_eq_fail_iff]
  cases r.verdict <;> decide

theorem statusOf_ne_two (verdict : Verdict) : statusOf verdict ≠ 2 := by
  cases verdict <;> decide

/-- The status is one exactly if there is a report of a check and it has a diagnostic. -/
theorem status_outcome_eq_one_iff :
    (outcome env a).status = 1 ↔
      ∃ r, report env a = .ok r ∧ r.mode = .check ∧ r.diagnostics ≠ [] := by
  cases h : report env a with
  | error f => simp [outcome_of_error h, failed]
  | ok r => simp [outcome_of_ok h, status_printed, statusOf_eq_one_iff]

/-- The status is two exactly if there is no report. -/
theorem status_outcome_eq_two_iff :
    (outcome env a).status = 2 ↔ ∃ f, report env a = .error f := by
  cases h : report env a with
  | error f => simp [outcome_of_error h, failed]
  | ok r => simp [outcome_of_ok h, status_printed, statusOf_ne_two]

/-- With any other status there is a report, and it was printed. -/
theorem exists_of_status_outcome_ne_two (h : (outcome env a).status ≠ 2) :
    ∃ r, report env a = .ok r ∧ outcome env a = printed (a.format.getD .text) r := by
  cases hreport : report env a with
  | error f => exact absurd (status_outcome_eq_two_iff.2 ⟨f, hreport⟩) h
  | ok r => exact ⟨r, rfl, outcome_of_ok hreport⟩

theorem mode_eq_check_iff {r : Report} (h : report env a = .ok r) :
    r.mode = .check ↔ a.printAll = false := by
  rw [mode_of_report h, modeOf]
  cases a.printAll <;> decide

/-- What the end of a run with text output tells about the report of the run. -/
structure TellsInText (env : Environment) (a : Arguments) (o : Outcome) : Prop where
  /-- A run is a check unless all references are asked for. -/
  mode_iff : ∀ r, report env a = .ok r → (r.mode = .check ↔ a.printAll = false)
  /-- The status is one exactly if the run is a check and its report has a diagnostic. -/
  status_one_iff : o.status = 1 ↔
    ∃ r, report env a = .ok r ∧ r.mode = .check ∧ r.diagnostics ≠ []
  /-- It is two exactly if the run has no report. -/
  status_two_iff : o.status = 2 ↔ ∃ f, report env a = .error f
  status_le : o.status ≤ 2
  /-- The output is the rendered report, or nothing if there is none. -/
  rendered : o.status = 0 ∨ o.status = 1 → ∃ r, report env a = .ok r ∧ o.stdout = r.render
  silent : o.status = 2 → o.stdout = ""
  /-- A check prints something exactly if its status is one. -/
  check : a.printAll = false → (o.stdout ≠ "" ↔ o.status = 1)
  /-- A list of all references never has the status one. -/
  listAll : a.printAll = true → o.status ≠ 1

/-- What the end of a run with JSON output tells about the report of the run: the report is read
back from the output, if its counts are words, and a check has a diagnostic exactly if the status is
one. -/
def TellsInJson (env : Environment) (a : Arguments) (o : Outcome) : Prop :=
  o.status = 0 ∨ o.status = 1 → ∃ r, report env a = .ok r ∧
    (r.CountsFit → Report.parse? o.stdout = some r) ∧
    (r.mode = .check → (r.diagnostics ≠ [] ↔ o.status = 1))

theorem outcome_tellsInText (hformat : a.format.getD .text = .text) :
    TellsInText env a (outcome env a) where
  mode_iff := fun _ hr => mode_eq_check_iff hr
  status_one_iff := status_outcome_eq_one_iff
  status_two_iff := status_outcome_eq_two_iff
  status_le := by
    cases h : report env a with
    | error f => simp [outcome_of_error h, failed]
    | ok r =>
      rw [outcome_of_ok h, status_printed]
      cases r.verdict <;> decide
  rendered := by
    intro hstatus
    have hne : (outcome env a).status ≠ 2 := by omega
    obtain ⟨r, hr, hprinted⟩ := exists_of_status_outcome_ne_two hne
    refine ⟨r, hr, ?_⟩
    rw [hprinted, hformat]
    rfl
  silent := by
    intro hstatus
    obtain ⟨f, hf⟩ := status_outcome_eq_two_iff.1 hstatus
    rw [outcome_of_error hf]
    rfl
  check := by
    intro hall
    cases hreport : report env a with
    | error f => simp [outcome_of_error hreport, failed]
    | ok r =>
      rw [outcome_of_ok hreport, hformat, status_printed, statusOf_eq_one_iff,
        mode_eq_check_iff hreport]
      simp [printed, r.render_eq_empty_iff, hall]
  listAll := by
    intro hall hstatus
    obtain ⟨r, hr, hmode, -⟩ := status_outcome_eq_one_iff.1 hstatus
    rw [mode_eq_check_iff hr, hall] at hmode
    cases hmode

theorem outcome_tellsInJson (hformat : a.format.getD .text = .json) :
    TellsInJson env a (outcome env a) := by
  intro hstatus
  have hne : (outcome env a).status ≠ 2 := by omega
  obtain ⟨r, hr, hprinted⟩ := exists_of_status_outcome_ne_two hne
  refine ⟨r, hr, ?_, ?_⟩
  · intro hcounts
    rw [hprinted, hformat]
    exact Report.parse?_pretty hcounts (hasWords_of_report hr)
  · intro hmode
    rw [hprinted, status_printed, statusOf_eq_one_iff]
    simp [hmode]

/-- **The end of a run tells the truth about its report.**  In text the status tells whether a check
has found something and the output is the report; in JSON the report can be read back. -/
theorem run_tells (env : Environment) {args : List String} (h : Request.parse args = .run a) :
    (a.format.getD .text = .text → TellsInText env a (run env args)) ∧
      (a.format.getD .text = .json → TellsInJson env a (run env args)) := by
  have hrun : run env args = outcome env a := by rw [run, h]
  rw [hrun]
  exact ⟨outcome_tellsInText, outcome_tellsInJson⟩

/-- A file with one call. -/
def calledOnce : Environment where
  tree := { root := .dir [("a.callgate.json", .file (some Analyzer.oneCall))] }

/-- A denylist with the call. -/
def noF : String := "\x7b\"func f()\":\"no f\"\x7d"

/-- The arguments of a check that forbids the call. -/
def forbidding (format : Option Format) : Arguments where
  denylistText := some noF
  format

/-- The report of that check. -/
def foundOnce : Report where
  mode := .check
  diagnostics := [⟨⟨⟨"/x"⟩, 2, 1⟩, "no f"⟩]
  packagesChecked := 1

theorem run_tells_calledOnce :
    (Request.parse ["--config-json", noF] = .run (forbidding none) ∧
      (run calledOnce ["--config-json", noF]).status = 1 ∧
      (run calledOnce ["--config-json", noF]).stdout = foundOnce.render) ∧
    (Request.parse ["--config-json", noF, "--format", "json"] = .run (forbidding (some .json)) ∧
      Report.parse? (run calledOnce ["--config-json", noF, "--format", "json"]).stdout =
        some foundOnce) := by
  have htext : Request.parse ["--config-json", noF] = .run (forbidding none) := by decide +kernel
  have hjson : Request.parse ["--config-json", noF, "--format", "json"] =
      .run (forbidding (some .json)) := by decide +kernel
  have hnone : report calledOnce (forbidding none) = .ok foundOnce := by decide +kernel
  have hreport : ∀ format, report calledOnce (forbidding format) = .ok foundOnce := fun format =>
    (report_with_format calledOnce (forbidding none) format).trans hnone
  obtain ⟨htellsText, -⟩ := run_tells calledOnce htext
  obtain ⟨-, htellsJson⟩ := run_tells calledOnce hjson
  have htextStatus := (htellsText rfl).status_one_iff.2
    ⟨foundOnce, hreport none, rfl, List.cons_ne_nil _ _⟩
  have hjsonStatus :
      (run calledOnce ["--config-json", noF, "--format", "json"]).status = 1 := by
    rw [run, hjson]
    exact status_outcome_eq_one_iff.2
      ⟨foundOnce, hreport (some .json), rfl, List.cons_ne_nil _ _⟩
  refine ⟨⟨htext, htextStatus, ?_⟩, hjson, ?_⟩
  · obtain ⟨r, hr, hstdout⟩ := (htellsText rfl).rendered (.inr htextStatus)
    rw [hreport none] at hr
    cases hr
    exact hstdout
  · obtain ⟨r, hr, hread, -⟩ := htellsJson rfl (.inr hjsonStatus)
    rw [hreport (some .json)] at hr
    cases hr
    exact hread ⟨by decide, by decide, by decide⟩

end CommandLine

end CallPolicy
