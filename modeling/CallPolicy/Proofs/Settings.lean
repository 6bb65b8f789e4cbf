import CallPolicy.Proofs.ExitStatus

/-!
# The settings of a run

A run settles its settings before it looks at any model: the configuration, the denylist, the
patterns of files to leave out and the number of jobs, in this order.  A fault in one of them ends
the run, and so does a check that forbids nothing.  In both cases the end of the run depends on the
files that may hold the configuration and on no other.  Its end is its status and its two outputs,
without the lines of a log.

## Main statements

* `report_eq` — a run settles its settings and then makes one analysis.
* `exists_settings_eq_error_iff` — which faults the settings of a run can have.
* `settings_congr` — the settings depend on the configuration files alone.
* `run_eq_of_sameConfig` — a run that is settled is the same, whatever models there are.
-/

namespace CallPolicy

/-- Patterns are refused exactly if one of them cannot be read. -/
theorem Glob.exists_parseAll_eq_error_iff (patterns : List String) :
    (∃ e, Glob.parseAll patterns = .error e) ↔
      ∃ pattern ∈ patterns, ∃ cause, Glob.parse pattern = .error cause := by
  induction patterns with
  | nil => simp [parseAll]
  | cons pattern rest ih =>
    rw [List.exists_mem_cons_iff, ← ih, parseAll]
    cases hpattern : Glob.parse pattern with
    | error cause => simp
    | ok glob => cases hrest : parseAll rest <;> simp [Except.map]

namespace FileTree

/-- What the file at a path holds, if the path leads to a file. -/
def fileAt? (t : FileTree) (p : Path) : Option (Option String) :=
  match t.lookup p with
  | .ok (.file text) => some text
  | _ => none

theorem isFile_eq_isSome (t : FileTree) (p : Path) : t.isFile p = (t.fileAt? p).isSome := by
  unfold isFile fileAt?
  cases t.lookup p with
  | error e => rfl
  | ok node => cases node <;> rfl

/-- A file is read as what it holds. -/
theorem readText_congr_of_fileAt? {t t' : FileTree} {p : Path} {text : Option String}
    (h : t.fileAt? p = some text) (h' : t'.fileAt? p = some text) :
    t'.readText p = t.readText p := by
  have hlookup : ∀ {t : FileTree}, t.fileAt? p = some text → t.lookup p = .ok (.file text) := by
    intro t h
    unfold fileAt? at h
    split at h
    · rename_i hfile
      rw [hfile, Option.some.inj h]
    · cases h
  rw [readText, readText, hlookup h, hlookup h']

end FileTree

namespace CommandLine

variable {env env' : Environment} {a : Arguments}

/-! ## Configuration files -/

/-- The directory of a run. -/
def runDir (env : Environment) (a : Arguments) : Path :=
  a.dir.getD env.tree.workingDir

/-- The configuration file that applies to a run. -/
def appliedConfig? (env : Environment) (a : Arguments) : Option Path :=
  configFile? env (runDir env a) a.configPath

/-- The configuration that applies to a run. -/
def configOf (env : Environment) (a : Arguments) : Except Failure Config :=
  loadConfig env (runDir env a) a.configPath

/-- Where a run in a directory looks for a configuration if none is named on the command line, in
the order of preference. -/
def implicitConfigs (globalDir : Option Path) (dir : Path) : List Path :=
  (projectConfigNames.map fun name => dir.join ⟨name⟩) ++
    (globalDir.map fun d => d.join ⟨globalConfigName⟩).toList

theorem appliedConfig?_of_some {path : Path} (h : a.configPath = some path) :
    appliedConfig? env a = some ((runDir env a).join path) := by
  rw [appliedConfig?, h]
  rfl

theorem appliedConfig?_of_none (h : a.configPath = none) :
    appliedConfig? env a =
      (implicitConfigs env.globalDir (runDir env a)).find? env.tree.isFile := by
  rw [appliedConfig?, h, configFile?, implicitConfigs, List.find?_append]
  cases env.globalDir <;> simp [Option.filter, List.find?_singleton]

/-- What a run may look at for its configuration is the same in both environments.  A file that is
named on the command line is read with the same result, be it a text or an error, and leaves no
other candidate; if none is named, the same candidates are files, and they hold the same. -/
structure SameConfig (env env' : Environment) (a : Arguments) : Prop where
  workingDir : env'.tree.workingDir = env.tree.workingDir
  globalDir : env'.globalDir = env.globalDir
  explicit : ∀ path ∈ a.configPath,
    env'.tree.readText ((runDir env a).join path) = env.tree.readText ((runDir env a).join path)
  implicit : a.configPath = none → ∀ p ∈ implicitConfigs env.globalDir (runDir env a),
    env'.tree.fileAt? p = env.tree.fileAt? p

theorem SameConfig.runDir_eq (h : SameConfig env env' a) : runDir env' a = runDir env a := by
  rw [runDir, runDir, h.workingDir]

/-- The same file applies. -/
theorem SameConfig.appliedConfig?_eq (h : SameConfig env env' a) :
    appliedConfig? env' a = appliedConfig? env a := by
  cases hpath : a.configPath with
  | some path => rw [appliedConfig?_of_some hpath, appliedConfig?_of_some hpath, h.runDir_eq]
  | none =>
    rw [appliedConfig?_of_none hpath, appliedConfig?_of_none hpath, h.runDir_eq, h.globalDir,
      ← List.head?_filter, ← List.head?_filter]
    refine congrArg List.head? (List.filter_congr ?_)
    intro p hp
    rw [FileTree.isFile_eq_isSome, FileTree.isFile_eq_isSome, h.implicit hpath p hp]

/-- It is read with the same result. -/
theorem SameConfig.readText_eq (h : SameConfig env env' a) {p : Path}
    (hp : appliedConfig? env a = some p) : env'.tree.readText p = env.tree.readText p := by
  cases hpath : a.configPath with
  | some path =>
    rw [appliedConfig?_of_some hpath] at hp
    cases hp
    exact h.explicit path hpath
  | none =>
    rw [appliedConfig?_of_none hpath] at hp
    have hsame := h.implicit hpath p (List.mem_of_find?_eq_some hp)
    have hfile := List.find?_some hp
    rw [FileTree.isFile_eq_isSome] at hfile
    obtain ⟨text, htext⟩ := Option.isSome_iff_exists.1 hfile
    exact FileTree.readText_congr_of_fileAt? htext (hsame.trans htext)

/-- A configuration depends on the file that applies and on what is read from it. -/
theorem configOf_congr (hfile : appliedConfig? env' a = appliedConfig? env a)
    (htext : ∀ p ∈ appliedConfig? env a, env'.tree.readText p = env.tree.readText p) :
    configOf env' a = configOf env a := by
  unfold appliedConfig? at hfile htext
  unfold configOf loadConfig
  rw [hfile]
  cases hpath : configFile? env (runDir env a) a.configPath with
  | none => rfl
  | some path => simp only [Config.load, htext path hpath]

/-! ## Settings -/

/-- What is settled before an analysis. -/
structure Settings where
  config : Config
  /-- The denylist on the command line, which takes the place of the configured one. -/
  denylist : Option Denylist
  exclude : List Glob

/-- The denylist on the command line; a list of all references has no use for it. -/
def denylistFor (a : Arguments) : Except Failure (Option Denylist) :=
  if a.printAll then .ok none else denylistOf a.denylistText

/-- The settings of a run, or its first fault. -/
def settings (env : Environment) (a : Arguments) : Except Failure Settings := do
  let config ← configOf env a
  let denylist ← denylistFor a
  let exclude ← (Glob.parseAll (a.exclude ++ config.exclude)).mapError .settings
  if a.jobs.or config.jobs = some 0 then .error (.settings .noJobs)
  else .ok ⟨config, denylist, exclude⟩

namespace Settings

/-- The denylist that applies. -/
def effectiveDenylist (s : Settings) : Denylist :=
  s.denylist.getD s.config.denylist

/-- The analysis with the given settings. -/
def analyzer (s : Settings) (env : Environment) (a : Arguments) : Analyzer where
  loader := env.tree.loadModels
  dir := env.tree.workingDir.join (runDir env a)
  specs := FileTree.effectiveSpecs a.specs
  policy := if a.printAll then .listAll else .check s.effectiveDenylist
  origins := s.config.origins
  exclude := s.exclude
  jobs := a.jobs.or s.config.jobs

end Settings

/-- The request for an analysis, once the configuration and the denylist are settled. -/
def requestWith (env : Environment) (a : Arguments) (config : Config)
    (denylist : Option Denylist) : AnalysisRequest where
  loader := some env.tree.loadModels
  dir := some (runDir env a)
  specs := FileTree.effectiveSpecs a.specs
  listAll := a.printAll
  denylist
  exclude := a.exclude
  jobs := a.jobs
  config

theorem analysisRequest_eq (env : Environment) (a : Arguments) :
    analysisRequest env a =
      configOf env a >>= fun config =>
        denylistFor a >>= fun denylist => .ok (requestWith env a config denylist) := by
  unfold analysisRequest denylistFor
  refine congrArg (configOf env a >>= ·) (funext fun config => ?_)
  dsimp only
  split <;> rfl

/-- The specifiers stay the same if they are made effective twice. -/
theorem effectiveSpecs_effectiveSpecs (specs : List String) :
    FileTree.effectiveSpecs (FileTree.effectiveSpecs specs) = FileTree.effectiveSpecs specs := by
  cases specs <;> rfl

theorem build_requestWith (env : Environment) (a : Arguments) (config : Config)
    (denylist : Option Denylist) :
    (requestWith env a config denylist).build env.tree.workingDir =
      match Glob.parseAll (a.exclude ++ config.exclude) with
      | .error e => .error e
      | .ok exclude =>
        if a.jobs.or config.jobs = some 0 then .error .noJobs
        else .ok (Settings.analyzer ⟨config, denylist, exclude⟩ env a) := by
  let request := requestWith env a config denylist
  have hspecs : (if request.specs.isEmpty then [allPackages] else request.specs) =
      FileTree.effectiveSpecs a.specs := effectiveSpecs_effectiveSpecs a.specs
  change request.build env.tree.workingDir = _
  rw [AnalysisRequest.build, hspecs]
  rfl

/-- **A run settles its settings and then makes one analysis.** -/
theorem report_eq (env : Environment) (a : Arguments) :
    report env a =
      match settings env a with
      | .error f => .error f
      | .ok s => (s.analyzer env a).analyze.mapError .analysis := by
  rw [report, analysisRequest_eq, settings]
  cases configOf env a with
  | error f => rfl
  | ok config =>
    cases denylistFor a with
    | error f => rfl
    | ok denylist =>
      simp only [bind, Except.bind, build_requestWith]
      cases Glob.parseAll (a.exclude ++ config.exclude) with
      | error e => rfl
      | ok exclude =>
        simp only [Except.mapError]
        by_cases hjobs : a.jobs.or config.jobs = some 0
        · simp only [if_pos hjobs]
        · simp only [if_neg hjobs]
          cases (Settings.analyzer ⟨config, denylist, exclude⟩ env a).analyze <;> rfl

/-- A configuration file, the denylist on the command line, a pattern or the number of jobs is at
fault. -/
inductive Fault (env : Environment) (a : Arguments) : Prop
  | config {f : Failure} (h : configOf env a = .error f)
  | denylist {f : Failure} (hcheck : a.printAll = false) (h : denylistOf a.denylistText = .error f)
  | exclude {config : Config} {pattern : String} {cause : Glob.Error}
    (hconfig : configOf env a = .ok config) (hpattern : pattern ∈ a.exclude ++ config.exclude)
    (h : Glob.parse pattern = .error cause)
  | jobs {config : Config} (hconfig : configOf env a = .ok config)
    (h : a.jobs.or config.jobs = some 0)

/-- The run is a check, and the denylist that applies to it is empty. -/
def ForbidsNothing (env : Environment) (a : Arguments) : Prop :=
  a.printAll = false ∧ ∃ config denylist, configOf env a = .ok config ∧
    denylistOf a.denylistText = .ok denylist ∧ (denylist.getD config.denylist).isEmpty = true

theorem denylistFor_of_check (h : a.printAll = false) :
    denylistFor a = denylistOf a.denylistText := by
  rw [denylistFor, h]
  rfl

/-- What settings that have no fault are made of. -/
theorem exists_of_settings_eq_ok {s : Settings} (h : settings env a = .ok s) :
    configOf env a = .ok s.config ∧ denylistFor a = .ok s.denylist ∧
      Glob.parseAll (a.exclude ++ s.config.exclude) = .ok s.exclude ∧
      a.jobs.or s.config.jobs ≠ some 0 := by
  obtain ⟨config, hconfig, h⟩ := exists_of_bind_eq_ok h
  obtain ⟨denylist, hdenylist, h⟩ := exists_of_bind_eq_ok h
  obtain ⟨exclude, hexclude, h⟩ := exists_of_bind_eq_ok h
  cases hglobs : Glob.parseAll (a.exclude ++ config.exclude) with
  | error e => simp [hglobs, Except.mapError] at hexclude
  | ok globs =>
    simp only [hglobs, Except.mapError, Except.ok.injEq] at hexclude
    split at h
    · cases h
    · rename_i hjobs
      cases h
      exact ⟨hconfig, hdenylist, hexclude ▸ hglobs, hjobs⟩

/-- **Settings are refused exactly for one of the faults.** -/
theorem exists_settings_eq_error_iff : (∃ f, settings env a = .error f) ↔ Fault env a := by
  constructor
  · rintro ⟨f, h⟩
    rw [settings] at h
    cases hconfig : configOf env a with
    | error e => exact .config hconfig
    | ok config =>
      cases hdenylist : denylistFor a with
      | error e =>
        cases hall : a.printAll with
        | true => simp [denylistFor, hall] at hdenylist
        | false => exact .denylist hall (denylistFor_of_check hall ▸ hdenylist)
      | ok denylist =>
        cases hglobs : Glob.parseAll (a.exclude ++ config.exclude) with
        | error e =>
          obtain ⟨pattern, hpattern, cause, hcause⟩ :=
            (Glob.exists_parseAll_eq_error_iff _).1 ⟨e, hglobs⟩
          exact .exclude hconfig hpattern hcause
        | ok exclude =>
          by_cases hjobs : a.jobs.or config.jobs = some 0
          · exact .jobs hconfig hjobs
          · simp [hconfig, hdenylist, hglobs, hjobs, bind, Except.bind, Except.mapError] at h
  · intro hfault
    cases hsettings : settings env a with
    | error f => exact ⟨f, rfl⟩
    | ok s =>
      -- settings without a fault contradict each of them
      obtain ⟨hconfig, hdenylist, hglobs, hjobs⟩ := exists_of_settings_eq_ok hsettings
      exfalso
      cases hfault with
      | config h => simp [h] at hconfig
      | denylist hcheck h =>
        rw [denylistFor_of_check hcheck, h] at hdenylist
        cases hdenylist
      | exclude hconfig' hpattern h =>
        cases hconfig.symm.trans hconfig'
        obtain ⟨e, he⟩ := (Glob.exists_parseAll_eq_error_iff _).2 ⟨_, hpattern, _, h⟩
        rw [he] at hglobs
        cases hglobs
      | jobs hconfig' h =>
        cases hconfig.symm.trans hconfig'
        exact hjobs h

/-- A run that forbids nothing has nothing to look for. -/
theorem ForbidsNothing.isIdle {s : Settings} (h : ForbidsNothing env a)
    (hsettings : settings env a = .ok s) : (s.analyzer env a).isIdle = true := by
  obtain ⟨hcheck, config, denylist, hconfig, hdenylist, hempty⟩ := h
  obtain ⟨hconfig', hdenylist', -, -⟩ := exists_of_settings_eq_ok hsettings
  rw [denylistFor_of_check hcheck] at hdenylist'
  cases hconfig.symm.trans hconfig'
  cases hdenylist.symm.trans hdenylist'
  rw [Analyzer.isIdle, Settings.analyzer, hcheck]
  exact hempty

/-! ## Runs -/

/-- **The settings depend on the configuration files alone.** -/
theorem settings_congr (h : configOf env' a = configOf env a) :
    settings env' a = settings env a := by
  rw [settings, settings, h]

theorem SameConfig.settings_eq (h : SameConfig env env' a) : settings env' a = settings env a :=
  settings_congr (configOf_congr h.appliedConfig?_eq fun _ hp => h.readText_eq hp)

theorem analyze_of_isIdle {analyzer : Analyzer} (h : analyzer.isIdle = true) :
    analyzer.analyze = .ok (.empty analyzer.policy.mode) :=
  if_pos h

/-- With a fault, or with nothing to look for, the report depends on the settings alone. -/
theorem report_congr_of_settled (hsame : settings env' a = settings env a)
    (h : Fault env a ∨ ForbidsNothing env a) : report env' a = report env a := by
  rw [report_eq, report_eq, hsame]
  cases hsettings : settings env a with
  | error f => rfl
  | ok s =>
    rcases h with h | h
    · obtain ⟨f, hf⟩ := exists_settings_eq_error_iff.2 h
      cases hf.symm.trans hsettings
    · have hidle := h.isIdle hsettings
      have hidle' : (s.analyzer env' a).isIdle = true := hidle
      simp only [analyze_of_isIdle hidle, analyze_of_isIdle hidle']
      rfl

/-- Without a fault, a run that forbids nothing has an empty report. -/
theorem report_of_forbidsNothing (hfault : ¬ Fault env a) (h : ForbidsNothing env a) :
    report env a = .ok (.empty .check) := by
  rw [report_eq]
  cases hsettings : settings env a with
  | error f => exact absurd (exists_settings_eq_error_iff.1 ⟨f, hsettings⟩) hfault
  | ok s =>
    have hmode : (s.analyzer env a).policy.mode = .check := by
      rw [Settings.analyzer, h.1]
      rfl
    simp only [analyze_of_isIdle (h.isIdle hsettings), hmode]
    rfl

/-- **A run is settled before any model is looked at.**  If its settings are at fault, or if it
forbids nothing, its end is the same in every environment with the same configuration files; and
without a fault, it ends well and prints nothing. -/
theorem run_eq_of_sameConfig {args : List String}
    (h : ∀ a, Request.parse args = .run a →
      SameConfig env env' a ∧ (Fault env a ∨ ForbidsNothing env a)) :
    run env' args = run env args ∧
      ∀ a, Request.parse args = .run a → ForbidsNothing env a → ¬ Fault env a →
        (run env args).status = 0 ∧ (a.format.getD .text = .text → (run env args).stdout = "") := by
  constructor
  · rw [run, run]
    cases hargs : Request.parse args with
    | version => rfl
    | help => rfl
    | misuse => rfl
    | run a =>
      obtain ⟨hsame, hsettled⟩ := h a hargs
      simp only [outcome, report_congr_of_settled hsame.settings_eq hsettled]
  · intro a hargs hnothing hfault
    have hrun : run env args = printed (a.format.getD .text) (.empty .check) := by
      rw [run, hargs]
      exact outcome_of_ok (report_of_forbidsNothing hfault hnothing)
    rw [hrun, status_printed]
    refine ⟨rfl, ?_⟩
    intro hformat
    rw [hformat]
    rfl

/-- A configuration that forbids a call and leaves out the files of a pattern, beside another
file. -/
def configured (pattern name : String) (text : Option String) : Environment where
  tree.root := .dir
    [("callgate.toml", .file (some ("[analyzer]\nexclude = [\"" ++ pattern ++
      "\"]\n[denylist]\n\"func f()\" = \"no f\"\n"))), (name, .file text)]

/-- The configuration beside a model with a call. -/
def withCall (pattern : String) : Environment :=
  configured pattern "a.callgate.json" (some Analyzer.oneCall)

/-- The configuration beside a model file that is no text. -/
def withoutText (pattern : String) : Environment :=
  configured pattern "b.callgate.json" none

/-- The configuration of both. -/
def configuredWith (pattern : String) : Config where
  exclude := [pattern]
  denylist := .ofList [("func f()", "no f")]

/-- The arguments of a check of a package that one of them lacks. -/
def checking (denylist : String) : Arguments where
  specs := ["b.callgate.json"]
  denylistText := some denylist

-- a pattern that cannot be read ends both runs; a blank denylist takes the place of the configured
-- one, and then nothing is forbidden
theorem run_eq_of_sameConfig_configured :
    (Request.parse ["--config-json", noF, "b.callgate.json"] = .run (checking noF) ∧
      Fault (withCall "[") (checking noF) ∧
      run (withoutText "[") ["--config-json", noF, "b.callgate.json"] =
        run (withCall "[") ["--config-json", noF, "b.callgate.json"]) ∧
    (Request.parse ["--config-json", " ", "b.callgate.json"] = .run (checking " ") ∧
      ForbidsNothing (withCall "x") (checking " ") ∧ ¬ Fault (withCall "x") (checking " ") ∧
      run (withoutText "x") ["--config-json", " ", "b.callgate.json"] =
        run (withCall "x") ["--config-json", " ", "b.callgate.json"] ∧
      (run (withCall "x") ["--config-json", " ", "b.callgate.json"]).status = 0 ∧
      (run (withCall "x") ["--config-json", " ", "b.callgate.json"]).stdout = "") := by
  have hargs : Request.parse ["--config-json", noF, "b.callgate.json"] = .run (checking noF) := by
    decide +kernel
  have hargs' : Request.parse ["--config-json", " ", "b.callgate.json"] = .run (checking " ") := by
    decide +kernel
  have hsame : SameConfig (withCall "[") (withoutText "[") (checking noF) :=
    ⟨rfl, rfl, nofun, fun _ => by decide +kernel⟩
  have hsame' : SameConfig (withCall "x") (withoutText "x") (checking " ") :=
    ⟨rfl, rfl, nofun, fun _ => by decide +kernel⟩
  have hfault : Fault (withCall "[") (checking noF) := by
    have hconfig : configOf (withCall "[") (checking noF) = .ok (configuredWith "[") := by
      decide +kernel
    have hpattern : Glob.parse "[" = .error ⟨0, .set⟩ := rfl
    exact .exclude hconfig List.mem_cons_self hpattern
  have hnothing : ForbidsNothing (withCall "x") (checking " ") :=
    ⟨rfl, configuredWith "x", some .empty, by decide +kernel, by decide +kernel, rfl⟩
  have hnone : ¬ Fault (withCall "x") (checking " ") := by
    intro h
    obtain ⟨f, hf⟩ := exists_settings_eq_error_iff.2 h
    have hok : (settings (withCall "x") (checking " ")).toBool = true := by decide +kernel
    rw [hf] at hok
    cases hok
  have hsettled : ∀ a, Request.parse ["--config-json", noF, "b.callgate.json"] = .run a →
      SameConfig (withCall "[") (withoutText "[") a ∧
        (Fault (withCall "[") a ∨ ForbidsNothing (withCall "[") a) := by
    intro a ha
    cases hargs.symm.trans ha
    exact ⟨hsame, .inl hfault⟩
  have hsettled' : ∀ a, Request.parse ["--config-json", " ", "b.callgate.json"] = .run a →
      SameConfig (withCall "x") (withoutText "x") a ∧
        (Fault (withCall "x") a ∨ ForbidsNothing (withCall "x") a) := by
    intro a ha
    cases hargs'.symm.trans ha
    exact ⟨hsame', .inr hnothing⟩
  obtain ⟨hrun, -⟩ := run_eq_of_sameConfig hsettled
  obtain ⟨hrun', hend⟩ := run_eq_of_sameConfig hsettled'
  obtain ⟨hstatus, hstdout⟩ := hend _ hargs' hnothing hnone
  exact ⟨⟨hargs, hfault, hrun⟩, hargs', hnothing, hnone, hrun', hstatus, hstdout rfl⟩

end CommandLine

end CallPolicy
