import CallPolicy.Analyzer
import CallPolicy.Codec.Report
import CallPolicy.CommandLine.Arguments
import CallPolicy.Json.Printer

/-!
# Runs of the command

A run reads the file tree and the environment, and ends with an exit status and two outputs.  The
status is 0 if nothing forbidden was found, 1 if something was, and 2 if the run failed.

The configuration comes from the first of these that there is: the file named on the command line,
which must then exist; `callgate.toml` or `.callgate.toml` in the directory of the run;
`config.toml` in the directory for all runs of a user; none, which leaves everything at its
default.

Two things are left out.  One is the log, which a run writes to the second output if `-v` or
`RUST_LOG` ask for it: each of its lines carries the time, and nothing is logged by default.  The
other is the failure of a run because the system cannot start as many workers as it has jobs.
-/

namespace CallPolicy.CommandLine

/-- What surrounds a run. -/
structure Environment where
  tree : FileTree
  /-- The directory with the configuration for all runs. -/
  globalDir : Option Path := none

/-- The end of a run. -/
structure Outcome where
  status : Nat
  stdout : String := ""
  /-- Messages, without the lines of a log. -/
  stderr : String := ""
deriving DecidableEq, Repr

/-- Why a run failed. -/
inductive Failure where
  /-- The configuration in a file cannot be loaded. -/
  | config (path : Path) (cause : ConfigError)
  /-- The denylist on the command line is malformed. -/
  | denylist (cause : ConfigError)
  /-- The settings are at fault. -/
  | settings (cause : ConfigError)
  /-- The analysis failed. -/
  | analysis (cause : ResolveError)
deriving DecidableEq, Repr

/-! ## Messages -/

/-- The messages of an error and its cause, as far as the cause is told. -/
def configChain : ConfigError → String
  | .unreadable path cause => (ConfigError.unreadable path cause).message ++ ": " ++ cause.message
  | e => e.message

/-- The messages of an error and its cause, as far as the cause is told. -/
def resolveChain : ResolveError → String
  | .unreadable path cause => (ResolveError.unreadable path cause).message ++ ": " ++ cause.message
  | e => e.message

/-- The messages of a failure, from the outermost to its cause. -/
def Failure.message : Failure → String
  | .config path cause => "Failed to load config: " ++ path.text ++ ": " ++ configChain cause
  | .denylist cause => "Invalid --config-json: " ++ configChain cause
  | .settings cause => "Failed to build analyzer: " ++ configChain cause
  | .analysis cause => "Analysis failed: " ++ resolveChain cause

/-! ## Configuration -/

/-- The names of configuration files in the directory of a run, in the order of preference. -/
def projectConfigNames : List String :=
  ["callgate.toml", ".callgate.toml"]

/-- The name of the configuration file for all runs. -/
def globalConfigName : String := "config.toml"

/-- The configuration file that applies to a run in a directory. -/
def configFile? (env : Environment) (dir : Path) (explicit : Option Path) : Option Path :=
  match explicit with
  | some path => some (dir.join path)
  | none =>
    let project := (projectConfigNames.map fun name => dir.join ⟨name⟩).find? env.tree.isFile
    let global := (env.globalDir.map fun d => d.join ⟨globalConfigName⟩).filter env.tree.isFile
    project.or global

/-- The configuration that applies to a run in a directory. -/
def loadConfig (env : Environment) (dir : Path) (explicit : Option Path) :
    Except Failure Config :=
  match configFile? env dir explicit with
  | none => .ok {}
  | some path =>
    match Config.load env.tree path with
    | .ok config => .ok config
    | .error cause => .error (.config path cause)

/-- The denylist on the command line, if there is one; a blank text is an empty denylist. -/
def denylistOf (text : Option String) : Except Failure (Option Denylist) :=
  match text with
  | none => .ok none
  | some text =>
    if text.toList.all Text.isBlank then .ok (some .empty)
    else
      match Denylist.parse text with
      | .ok denylist => .ok (some denylist)
      | .error cause => .error (.denylist cause)

/-! ## The run -/

/-- The analysis that the arguments ask for. -/
def analysisRequest (env : Environment) (a : Arguments) : Except Failure AnalysisRequest := do
  let dir := a.dir.getD env.tree.workingDir
  let config ← loadConfig env dir a.configPath
  -- a list of all references has no use for a denylist, so a malformed one is no fault there
  let denylist ← if a.printAll then .ok none else denylistOf a.denylistText
  .ok
    { loader := some env.tree.loadModels
      dir := some dir
      specs := if a.specs.isEmpty then [allPackages] else a.specs
      listAll := a.printAll
      denylist
      exclude := a.exclude
      jobs := a.jobs
      config }

/-- The report that the arguments ask for. -/
def report (env : Environment) (a : Arguments) : Except Failure Report :=
  match analysisRequest env a with
  | .error e => .error e
  | .ok request =>
    match request.build env.tree.workingDir with
    | .error cause => .error (.settings cause)
    | .ok analyzer =>
      match analyzer.analyze with
      | .error cause => .error (.analysis cause)
      | .ok report => .ok report

/-- The exit status that tells a verdict. -/
def statusOf : Verdict → Nat
  | .pass => 0
  | .fail => 1

/-- A printed report. -/
def printed (format : Format) (r : Report) : Outcome :=
  match format with
  | .text => { status := statusOf r.verdict, stdout := r.render }
  | .json => { status := statusOf r.verdict, stdout := Json.pretty 0 r.encode ++ "\n" }
  | .summary =>
    { status := statusOf r.verdict, stdout := r.render, stderr := r.summary ++ "\n" }

/-- The end of a run that failed. -/
def failed (f : Failure) : Outcome :=
  { status := 2, stderr := "callgate: " ++ f.message ++ "\n" }

/-- The end of a run with the given arguments. -/
def outcome (env : Environment) (a : Arguments) : Outcome :=
  match report env a with
  | .error f => failed f
  | .ok r => printed (a.format.getD .text) r

/-- The absolute paths where a run with the given arguments looks for files, outer ones first. -/
def places (workingDir : Path) (globalDir : Option Path) (a : Arguments) : List Path :=
  let dir := a.dir.getD workingDir
  let config :=
    match a.configPath with
    | some path => [dir.join path]
    | none => projectConfigNames.map fun name => dir.join ⟨name⟩
  let global := (globalDir.map fun d => d.join ⟨globalConfigName⟩).toList
  let specs := if a.specs.isEmpty then [allPackages] else a.specs
  let roots := specs.map fun spec => (FileTree.Target.ofSpec spec).root (workingDir.join dir)
  stableSort (fun a b => a.components.length ≤ b.components.length)
    ((roots ++ config ++ global).map workingDir.join)

/-- How the command is used. -/
def usage : String := "Usage: callgate [OPTIONS] [PACKAGES]...\n"

/-- Runs the command. -/
def run (env : Environment) (args : List String) : Outcome :=
  match Request.parse args with
  | .run a => outcome env a
  | .version => { status := 0, stdout := "callgate 0.1.0\n" }
  | .help => { status := 0, stdout := usage }
  | .misuse => { status := 2, stderr := usage }

end CallPolicy.CommandLine
