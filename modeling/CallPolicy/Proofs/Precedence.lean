import CallPolicy.Proofs.SameTree
import CallPolicy.Proofs.Settings

/-!
# Which configuration applies

The first configuration file that there is applies, and those after it are *shadowed*.  What is in a
shadowed file, and whether it is there at all, makes no difference to a run, as long as no specifier
makes it a model file.  One trace of it can remain: a file that is named on the command line by a
path through the shadowed one, as if that were a directory, cannot be read, and the reason given for
that depends on whether there is a file in the way.

Runs are compared by their reports, messages and exit statuses.  The lines of a log, of which some
name the file that applies, are no part of that.

## Main statements

* `pairwise_place` — the candidates are at different places.
* `ShadowedChange.appliedConfig?_eq` — the same file applies whatever is in the shadowed ones.
* `run_of_shadowedChange` — what a change of shadowed files leaves as it is.
-/

namespace CallPolicy.CommandLine

open FileTree (SameBut)

variable {env env' : Environment} {a : Arguments} {hidden : List String → Prop}

/-! ## Candidates -/

/-- The candidates for a configuration file that come after the one that applies. -/
def shadowedConfigs (env : Environment) (a : Arguments) : List Path :=
  match a.configPath with
  | some _ => implicitConfigs env.globalDir (runDir env a)
  | none =>
    ((implicitConfigs env.globalDir (runDir env a)).dropWhile fun p => !env.tree.isFile p).tail

/-- A candidate that does not apply is at the place. -/
def IsShadowed (env : Environment) (a : Arguments) (names : List String) : Prop :=
  (∃ p ∈ shadowedConfigs env a, env.tree.place p = names) ∧
    ∀ p ∈ appliedConfig? env a, env.tree.place p ≠ names

/-- **The candidates are at different places,** because they have different names. -/
theorem pairwise_place {t : FileTree} (hworking : t.workingDir.isAbsolute = true)
    (globalDir : Option Path) (dir : Path) :
    (implicitConfigs globalDir dir).Pairwise fun p q => t.place p ≠ t.place q := by
  have hplace : ∀ dir, ∀ name ∈ ["callgate.toml", ".callgate.toml", "config.toml"],
      t.place (dir.join ⟨name⟩) = t.place dir ++ [name] := by
    intro dir name hname
    have hentry : ∀ name ∈ ["callgate.toml", ".callgate.toml", "config.toml"],
        Path.isEntryName name = true := by
      decide
    exact FileTree.place_join hworking (hentry name hname)
  cases globalDir <;> simp [implicitConfigs, projectConfigNames, globalConfigName, hplace]

/-- The environments differ in shadowed configuration files at hidden places, and no specifier names
one of these. -/
structure ShadowedChange (hidden : List String → Prop) (env env' : Environment) (a : Arguments) :
    Prop where
  proper : env.tree.IsProper
  proper' : env'.tree.IsProper
  working : env.tree.workingDir.isAbsolute = true
  globalDir : env'.globalDir = env.globalDir
  shadowed : ∀ names, hidden names → IsShadowed env a names
  trees : SameBut hidden env.tree env'.tree
  found : ∀ spec ∈ FileTree.effectiveSpecs a.specs,
    env.tree.FindsNone hidden spec (env.tree.workingDir.join (runDir env a)) ∧
      env'.tree.FindsNone hidden spec (env.tree.workingDir.join (runDir env a))

namespace ShadowedChange

theorem runDir_eq (h : ShadowedChange hidden env env' a) : runDir env' a = runDir env a := by
  rw [runDir, runDir, h.trees.workingDir]

/-- The same file is at a place that is not hidden. -/
theorem fileAt?_eq (h : ShadowedChange hidden env env' a) {p : Path}
    (hp : ¬ hidden (env.tree.place p)) : env'.tree.fileAt? p = env.tree.fileAt? p := by
  rcases h.trees.lookup_cases hp with hsame | ⟨-, ⟨e, he⟩, e', he'⟩
  · rcases FileTree.glance_cases hsame with ⟨e, he, he'⟩ | ⟨text, hfile, hfile'⟩ | ⟨_, _, hd, hd'⟩
    · simp only [FileTree.fileAt?, he, he']
    · simp only [FileTree.fileAt?, hfile, hfile']
    · simp only [FileTree.fileAt?, hd, hd']
  · simp only [FileTree.fileAt?, he, he']

/-- A candidate that is looked at is not hidden. -/
theorem not_hidden_of_mem (h : ShadowedChange hidden env env' a) (hnone : a.configPath = none)
    {before after : List Path} {file p : Path}
    (hsplit : implicitConfigs env.globalDir (runDir env a) = before ++ file :: after)
    (hbefore : ∀ q ∈ before, env.tree.isFile q = false) (hfile : env.tree.isFile file = true)
    (hp : p ∈ before ++ [file]) : ¬ hidden (env.tree.place p) := by
  intro hhidden
  obtain ⟨⟨q, hq, hplace⟩, -⟩ := h.shadowed _ hhidden
  have hafter : shadowedConfigs env a = after := by
    rw [shadowedConfigs, hnone]
    simp only [hsplit]
    rw [List.dropWhile_append_of_pos (by simpa using hbefore),
      List.dropWhile_cons_of_neg (by simp [hfile])]
    rfl
  have hpairs := pairwise_place h.working env.globalDir (runDir env a)
  rw [hsplit, ← List.singleton_append, ← List.append_assoc, List.pairwise_append] at hpairs
  exact hpairs.2.2 p hp q (hafter ▸ hq) hplace.symm

/-- If no file applies, nothing is hidden. -/
theorem not_hidden_of_find?_eq_none (h : ShadowedChange hidden env env' a)
    (hnone : a.configPath = none)
    (hfind : (implicitConfigs env.globalDir (runDir env a)).find? env.tree.isFile = none)
    (names : List String) : ¬ hidden names := by
  intro hhidden
  obtain ⟨⟨q, hq, -⟩, -⟩ := h.shadowed names hhidden
  have hall : ∀ p ∈ implicitConfigs env.globalDir (runDir env a), (!env.tree.isFile p) = true := by
    simpa using hfind
  rw [shadowedConfigs, hnone] at hq
  simp only [List.dropWhile_eq_nil_iff.2 hall] at hq
  cases hq

/-- **The same file applies.** -/
theorem appliedConfig?_eq (h : ShadowedChange hidden env env' a) :
    appliedConfig? env' a = appliedConfig? env a := by
  cases hpath : a.configPath with
  | some path => rw [appliedConfig?_of_some hpath, appliedConfig?_of_some hpath, h.runDir_eq]
  | none =>
    have hsame : ∀ p, ¬ hidden (env.tree.place p) → env'.tree.isFile p = env.tree.isFile p := by
      intro p hp
      rw [FileTree.isFile_eq_isSome, FileTree.isFile_eq_isSome, h.fileAt?_eq hp]
    rw [appliedConfig?_of_none hpath, appliedConfig?_of_none hpath, h.runDir_eq, h.globalDir]
    cases hfind : (implicitConfigs env.globalDir (runDir env a)).find? env.tree.isFile with
    | none =>
      rw [List.find?_eq_none] at hfind ⊢
      intro p hp
      rw [hsame p (h.not_hidden_of_find?_eq_none hpath (List.find?_eq_none.2 hfind) _)]
      exact hfind p hp
    | some file =>
      obtain ⟨hfile, before, after, hsplit, hbefore⟩ := List.find?_eq_some_iff_append.1 hfind
      simp only [Bool.not_eq_true'] at hbefore
      have hchecked : ∀ p ∈ before ++ [file], env'.tree.isFile p = env.tree.isFile p := fun p hp =>
        hsame p (h.not_hidden_of_mem hpath hsplit hbefore hfile hp)
      rw [List.find?_eq_some_iff_append]
      refine ⟨?_, before, after, hsplit, ?_⟩
      · rw [hchecked file (by simp), hfile]
      · intro p hp
        rw [hchecked p (by simp [hp]), hbefore p hp]
        rfl

/-- The file that applies is read with the same result, unless it was named by a path through a
hidden place and cannot be read. -/
theorem readText_cases (h : ShadowedChange hidden env env' a) {p : Path}
    (hp : appliedConfig? env a = some p) :
    env'.tree.readText p = env.tree.readText p ∨
      (a.configPath.isSome ∧ env.tree.LeadsThrough hidden p ∧
        (∃ e, env.tree.readText p = .error e) ∧ ∃ e, env'.tree.readText p = .error e) := by
  have hplace : ¬ hidden (env.tree.place p) := fun hhidden =>
    (h.shadowed _ hhidden).2 p hp rfl
  rcases h.trees.lookup_cases hplace with hsame | ⟨hthrough, ⟨e, he⟩, e', he'⟩
  · exact .inl (FileTree.readText_of_glance hsame)
  · cases hpath : a.configPath with
    | some path =>
      refine .inr ⟨rfl, hthrough, ⟨e, ?_⟩, e', ?_⟩
      · simp only [FileTree.readText, he]
      · simp only [FileTree.readText, he']
    | none =>
      -- otherwise it is a file
      rw [appliedConfig?_of_none hpath] at hp
      have hfile := List.find?_some hp
      simp [FileTree.isFile, he] at hfile

/-- The same models are loaded. -/
theorem loadModels_eq (h : ShadowedChange hidden env env' a) :
    env'.tree.loadModels (FileTree.effectiveSpecs a.specs)
        (env.tree.workingDir.join (runDir env a)) =
      env.tree.loadModels (FileTree.effectiveSpecs a.specs)
        (env.tree.workingDir.join (runDir env a)) := by
  refine h.trees.loadModels_eq h.proper h.proper' (Path.isAbsolute_join h.working _) ?_
  rw [effectiveSpecs_effectiveSpecs]
  exact h.found

end ShadowedChange

/-! ## Runs -/

/-- An analysis depends on what its loader gives for its specifiers and its directory. -/
theorem analyze_congr {analyzer analyzer' : Analyzer}
    (hsame : analyzer' = { analyzer with loader := analyzer'.loader })
    (hload : analyzer'.loader analyzer.specs analyzer.dir =
      analyzer.loader analyzer.specs analyzer.dir) : analyzer'.analyze = analyzer.analyze := by
  rw [hsame]
  unfold Analyzer.analyze
  simp only [hload]
  rfl

/-- **If the file that applies is read with the same result, so is the report.** -/
theorem ShadowedChange.report_eq (h : ShadowedChange hidden env env' a)
    (htext : ∀ p ∈ appliedConfig? env a, env'.tree.readText p = env.tree.readText p) :
    report env' a = report env a := by
  have hsettings := settings_congr (configOf_congr h.appliedConfig?_eq htext)
  rw [CommandLine.report_eq, CommandLine.report_eq, hsettings]
  cases settings env a with
  | error f => rfl
  | ok s =>
    have hsame : s.analyzer env' a = { s.analyzer env a with loader := env'.tree.loadModels } := by
      simp only [Settings.analyzer, h.runDir_eq, h.trees.workingDir]
    simp only [analyze_congr hsame h.loadModels_eq]

/-- A file that is named on the command line and cannot be loaded ends the run. -/
theorem outcome_of_explicit {path : Path} {cause : ConfigError} (hpath : a.configPath = some path)
    (hload : Config.load env.tree ((runDir env a).join path) = .error cause) :
    outcome env a = failed (.config ((runDir env a).join path) cause) := by
  have hconfig : configOf env a = .error (.config ((runDir env a).join path) cause) := by
    simp only [configOf, loadConfig, configFile?, hpath, hload]
  refine outcome_of_error ?_
  rw [CommandLine.report_eq, settings, hconfig]
  rfl

theorem load_of_readText_eq_error {t : FileTree} {p : Path} {e : FileError}
    (h : t.readText p = .error e) : Config.load t p = .error (.unreadable p e) := by
  rw [Config.load, h]

/-- The run has failed because it could not read the file that was named on the command line. -/
def CannotRead (env : Environment) (a : Arguments) (path : Path) : Prop :=
  ∃ e, outcome env a =
    failed (.config ((runDir env a).join path) (.unreadable ((runDir env a).join path) e))

/-- A change of shadowed files leaves the end of a run as it is, unless a path through one of them
was to be read. -/
theorem ShadowedChange.outcome_cases (h : ShadowedChange hidden env env' a) :
    outcome env' a = outcome env a ∨
      ∃ path, a.configPath = some path ∧
        env.tree.LeadsThrough hidden ((runDir env a).join path) ∧
        CannotRead env a path ∧ CannotRead env' a path := by
  by_cases htext : ∀ p ∈ appliedConfig? env a, env'.tree.readText p = env.tree.readText p
  · left
    rw [outcome, outcome, h.report_eq htext]
  · right
    push Not at htext
    obtain ⟨p, hp, hne⟩ := htext
    rcases h.readText_cases hp with hsame | ⟨hsome, hthrough, ⟨e, he⟩, e', he'⟩
    · exact absurd hsame hne
    · obtain ⟨path, hpath⟩ := Option.isSome_iff_exists.1 hsome
      obtain rfl : (runDir env a).join path = p := by
        rw [appliedConfig?_of_some hpath] at hp
        exact Option.some.inj hp
      refine ⟨path, hpath, hthrough, ⟨e, ?_⟩, e', ?_⟩
      · exact outcome_of_explicit hpath (load_of_readText_eq_error he)
      · rw [← h.runDir_eq] at he'
        exact outcome_of_explicit hpath (load_of_readText_eq_error he')

/-- **Configuration files that are shadowed do not interfere.**  Whatever is in them, the status and
the output of a run are the same.  So are its messages, unless it was to read a file by a path
through a shadowed one and failed for that.  A file that is named on the command line and cannot be
loaded ends the run, whatever other files there are. -/
theorem run_of_shadowedChange {args : List String}
    (h : ∀ a, Request.parse args = .run a → ShadowedChange hidden env env' a) :
    (run env' args).status = (run env args).status ∧
      (run env' args).stdout = (run env args).stdout ∧
      ((run env' args).stderr = (run env args).stderr ∨
        ∃ a path, Request.parse args = .run a ∧ a.configPath = some path ∧
          env.tree.LeadsThrough hidden ((runDir env a).join path) ∧
          CannotRead env a path ∧ CannotRead env' a path) ∧
      ∀ a path cause, Request.parse args = .run a → a.configPath = some path →
        Config.load env.tree ((runDir env a).join path) = .error cause →
        run env args = failed (.config ((runDir env a).join path) cause) := by
  have hrun : ∀ env a, Request.parse args = .run a → run env args = outcome env a := by
    intro env a hargs
    rw [run, hargs]
  have hexplicit : ∀ a path cause, Request.parse args = .run a → a.configPath = some path →
      Config.load env.tree ((runDir env a).join path) = .error cause →
      run env args = failed (.config ((runDir env a).join path) cause) := by
    intro a path cause hargs hpath hload
    rw [hrun env a hargs, outcome_of_explicit hpath hload]
  have hcases : run env' args = run env args ∨
      ∃ a path, Request.parse args = .run a ∧ a.configPath = some path ∧
        env.tree.LeadsThrough hidden ((runDir env a).join path) ∧
        CannotRead env a path ∧ CannotRead env' a path := by
    cases hargs : Request.parse args with
    | version => left; rw [run, run, hargs]
    | help => left; rw [run, run, hargs]
    | misuse => left; rw [run, run, hargs]
    | run a =>
      rcases (h a hargs).outcome_cases with hsame | ⟨path, hpath, hthrough, hread⟩
      · left
        rw [hrun env' a hargs, hrun env a hargs, hsame]
      · exact .inr ⟨a, path, rfl, hpath, hthrough, hread⟩
  rcases hcases with hsame | ⟨a, path, hargs, hpath, hthrough, hread, hread'⟩
  · rw [hsame]
    exact ⟨rfl, rfl, .inl rfl, hexplicit⟩
  · obtain ⟨e, he⟩ := hread
    obtain ⟨e', he'⟩ := hread'
    refine ⟨?_, ?_, .inr ⟨a, path, hargs, hpath, hthrough, ⟨e, he⟩, e', he'⟩, hexplicit⟩
    · rw [hrun env' a hargs, hrun env a hargs, he, he']
      rfl
    · rw [hrun env' a hargs, hrun env a hargs, he, he']
      rfl

/-- A tree with the given entries in its root. -/
def rooted (entries : List (String × FileNode)) : Environment where
  tree := ⟨.dir entries, ⟨"/"⟩⟩

instance (names : List String) : Decidable (IsShadowed env a names) :=
  inferInstanceAs (Decidable (_ ∧ _))

/-- None of the files that the specifiers name is at the place. -/
def namesNone (t : FileTree) (specs : List String) (names : List String) : Bool :=
  (FileTree.effectiveSpecs specs).all fun spec =>
    ((t.discover spec ⟨"/"⟩).toOption.getD []).all fun p => t.place p ≠ names

theorem findsNone_of_namesNone {t : FileTree} {specs names : List String}
    (h : namesNone t specs names = true) {spec : String}
    (hspec : spec ∈ FileTree.effectiveSpecs specs) : t.FindsNone (· = names) spec ⟨"/"⟩ := by
  intro paths hpaths p hp
  have hall := List.all_eq_true.1 h spec hspec
  rw [hpaths] at hall
  simpa using List.all_eq_true.1 hall p hp

/-- A file is put in the root, where it is shadowed. -/
theorem shadowedChange_put {entries : List (String × FileNode)} {name : String}
    {text : Option String} (hdir : a.dir = none)
    (hproper : (rooted entries).tree.IsProper)
    (hproper' : (rooted (Entries.put name (.file text) entries)).tree.IsProper)
    (hname : ∀ below, Entries.find? name entries ≠ some (.dir below))
    (hshadowed : IsShadowed (rooted entries) a [name])
    (hfound : namesNone (rooted entries).tree a.specs [name] = true)
    (hfound' : namesNone (rooted (Entries.put name (.file text) entries)).tree a.specs [name] =
      true) :
    ShadowedChange (· = [name]) (rooted entries) (rooted (Entries.put name (.file text) entries))
      a where
  proper := hproper
  proper' := hproper'
  working := by
    show (⟨"/"⟩ : Path).isAbsolute = true
    decide
  globalDir := rfl
  shadowed := by
    rintro _ rfl
    exact hshadowed
  trees := FileTree.sameBut_put _ text hname
  found := by
    intro spec hspec
    have hroot : (rooted entries).tree.workingDir.join (runDir (rooted entries) a) = ⟨"/"⟩ := by
      rw [runDir, hdir]
      show (⟨"/"⟩ : Path).join ⟨"/"⟩ = ⟨"/"⟩
      decide
    rw [hroot]
    exact ⟨findsNone_of_namesNone hfound hspec, findsNone_of_namesNone hfound' hspec⟩

/-- A configuration that forbids a call, and a model with the call. -/
def forbiddenCall : List (String × FileNode) :=
  [("callgate.toml", .file (some "[denylist]\n\"func f()\" = \"no f\"\n")),
    ("a.callgate.json", .file (some Analyzer.oneCall))]

/-- The same with a configuration that is shadowed and malformed. -/
def shadowingMalformed : List (String × FileNode) :=
  Entries.put ".callgate.toml" (.file (some "[")) forbiddenCall

theorem run_of_shadowedChange_forbiddenCall :
    (ShadowedChange (· = [".callgate.toml"]) (rooted forbiddenCall) (rooted shadowingMalformed) {} ∧
      (run (rooted forbiddenCall) []).status = 1 ∧
      (run (rooted shadowingMalformed) []).status = 1 ∧
      (run (rooted shadowingMalformed) []).stdout = (run (rooted forbiddenCall) []).stdout ∧
      (run (rooted shadowingMalformed) []).stderr = (run (rooted forbiddenCall) []).stderr) ∧
    run (rooted forbiddenCall) ["--config", "none.toml"] =
      failed (.config ⟨"/none.toml"⟩ (.unreadable ⟨"/none.toml"⟩ .notFound)) := by
  have hchange : ShadowedChange (· = [".callgate.toml"]) (rooted forbiddenCall)
      (rooted shadowingMalformed) {} :=
    shadowedChange_put rfl ⟨by decide, by decide⟩ ⟨by decide, by decide⟩
      (by simp [forbiddenCall, Entries.find?]) (by decide +kernel) (by decide +kernel)
      (by decide +kernel)
  have hchange' : ShadowedChange (· = [".callgate.toml"]) (rooted forbiddenCall)
      (rooted shadowingMalformed) { configPath := some ⟨"none.toml"⟩ } :=
    shadowedChange_put rfl ⟨by decide, by decide⟩ ⟨by decide, by decide⟩
      (by simp [forbiddenCall, Entries.find?]) (by decide +kernel) (by decide +kernel)
      (by decide +kernel)
  have hargs : Request.parse [] = .run {} := rfl
  have hargs' : Request.parse ["--config", "none.toml"] =
      .run { configPath := some ⟨"none.toml"⟩ } := by
    decide +kernel
  have hstatus : (run (rooted forbiddenCall) []).status = 1 := by decide +kernel
  have hall : ∀ a, Request.parse [] = .run a →
      ShadowedChange (· = [".callgate.toml"]) (rooted forbiddenCall) (rooted shadowingMalformed)
        a := by
    intro a ha
    cases hargs.symm.trans ha
    exact hchange
  have hall' : ∀ a, Request.parse ["--config", "none.toml"] = .run a →
      ShadowedChange (· = [".callgate.toml"]) (rooted forbiddenCall) (rooted shadowingMalformed)
        a := by
    intro a ha
    cases hargs'.symm.trans ha
    exact hchange'
  obtain ⟨hsame, hstdout, hstderr, -⟩ := run_of_shadowedChange hall
  obtain ⟨-, -, -, hexplicit⟩ := run_of_shadowedChange hall'
  refine ⟨⟨hchange, hstatus, hsame.trans hstatus, hstdout, ?_⟩, ?_⟩
  · rcases hstderr with hstderr | ⟨a, path, ha, hpath, -⟩
    · exact hstderr
    · cases hargs.symm.trans ha
      cases hpath
  · have hload : Config.load (rooted forbiddenCall).tree
        ((runDir (rooted forbiddenCall) { configPath := some ⟨"none.toml"⟩ }).join
          ⟨"none.toml"⟩) = .error (.unreadable ⟨"/none.toml"⟩ .notFound) := by
      decide +kernel
    have hpath : (runDir (rooted forbiddenCall) { configPath := some ⟨"none.toml"⟩ }).join
        ⟨"none.toml"⟩ = ⟨"/none.toml"⟩ := by
      decide +kernel
    have hend := hexplicit _ _ _ hargs' rfl hload
    rwa [hpath] at hend

/-- **A shadowed file in the way of the file that applies shows in the reason that is given.** -/
theorem stderr_ne_of_leadsThrough :
    Request.parse ["--config", "callgate.toml/x"] =
        .run { configPath := some ⟨"callgate.toml/x"⟩ } ∧
      ShadowedChange (· = ["callgate.toml"]) (rooted [])
        (rooted (Entries.put "callgate.toml" (.file (some "")) []))
        { configPath := some ⟨"callgate.toml/x"⟩ } ∧
      (run (rooted (Entries.put "callgate.toml" (.file (some "")) []))
        ["--config", "callgate.toml/x"]).stderr ≠
        (run (rooted []) ["--config", "callgate.toml/x"]).stderr := by
  refine ⟨by decide +kernel, ?_, by decide +kernel⟩
  exact shadowedChange_put rfl ⟨by decide, by decide⟩ ⟨by decide, by decide⟩
    (by simp [Entries.find?]) (by decide +kernel) (by decide +kernel) (by decide +kernel)

end CallPolicy.CommandLine
