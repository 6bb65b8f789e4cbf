import CallPolicy.Config
import CallPolicy.FileTree.Loading
import CallPolicy.Glob.Rows
import CallPolicy.Report

/-!
# Analysis

An analysis loads a model, finds the references of its packages, and reports either all of them, or
those that a denylist forbids and no comment permits.  Its settings come from a request, and what
the request leaves open comes from a configuration.

Packages are analyzed by a number of workers at a time, and what they find is put together in the
order of the packages.  So the number makes no difference to a report.  That the system may be
unable to start so many workers is left out here.
-/

namespace CallPolicy

/-- Where packages come from: specifiers, seen from a directory, name a model. -/
abbrev Loader := List String → Path → Except ResolveError Model

/-- What an analysis reports. -/
inductive Policy where
  | listAll
  | check (denylist : Denylist)
deriving DecidableEq

/-- The mode of a policy. -/
def Policy.mode : Policy → Mode
  | .listAll => .listAll
  | .check _ => .check

/-- Why an analysis ends without a report. -/
inductive AnalysisError where
  | config (cause : ConfigError)
  | resolve (cause : ResolveError)
deriving DecidableEq

/-! ## Requests -/

/-- The settings asked for. -/
structure AnalysisRequest where
  loader : Option Loader := none
  /-- The directory from which specifiers are seen. -/
  dir : Option Path := none
  specs : List String := []
  listAll : Bool := false
  denylist : Option Denylist := none
  origins : Option OriginMap := none
  exclude : List String := []
  jobs : Option Nat := none
  config : Config := {}

/-- An analysis that is ready to run. -/
structure Analyzer where
  loader : Loader
  dir : Path
  specs : List String
  policy : Policy
  origins : OriginMap
  exclude : List Glob
  /-- The number of packages analyzed at a time, which has no effect on a report. -/
  jobs : Option Nat

/-- Reads patterns, up to the first one that cannot be read. -/
def Glob.parseAll : List String → Except ConfigError (List Glob)
  | [] => .ok []
  | pattern :: rest =>
    match Glob.parse pattern with
    | .error cause => .error (.invalidGlob pattern cause)
    | .ok glob => (parseAll rest).map (glob :: ·)

namespace AnalysisRequest

/-- The directory from which specifiers are seen, made absolute. -/
def absoluteDir (r : AnalysisRequest) (workingDir : Path) : Path :=
  match r.dir with
  | some dir => workingDir.join dir
  | none => workingDir

/-- What is to be reported. -/
def policy (r : AnalysisRequest) : Policy :=
  if r.listAll then .listAll else .check (r.denylist.getD r.config.denylist)

/-- The analysis asked for, run from a working directory. -/
def build (r : AnalysisRequest) (workingDir : Path) : Except ConfigError Analyzer :=
  match r.loader with
  | none => .error .noLoader
  | some loader =>
    match Glob.parseAll (r.exclude ++ r.config.exclude) with
    | .error e => .error e
    | .ok exclude =>
      let jobs := r.jobs.or r.config.jobs
      if jobs = some 0 then .error .noJobs
      else
        .ok
          { loader
            dir := r.absoluteDir workingDir
            specs := if r.specs.isEmpty then [allPackages] else r.specs
            policy := r.policy
            origins := r.origins.getD r.config.origins
            exclude
            jobs }

end AnalysisRequest

/-! ## Runs -/

/-- What one package adds to a report. -/
structure PackageOutcome where
  diagnostics : List Diagnostic
  files : Nat
  suppressed : Nat
deriving DecidableEq, Repr

namespace Analyzer

/-- The file is left out: a pattern matches its path, or what is left of it below the directory. -/
def isExcluded (a : Analyzer) (file : Path) : Bool :=
  let relative := (file.below? a.dir).getD file
  a.exclude.any fun glob => glob.isMatch file.text || glob.isMatch relative.text

/-- The references of a package in files that are not left out. -/
def includedReferences (a : Analyzer) (m : Model) (p : Package) : List Reference :=
  (m.references a.origins p).filter fun r => !a.isExcluded r.position.file

/-- The diagnostic for a reference that is forbidden. -/
def forbidden? (denylist : Denylist) (r : Reference) : Option Diagnostic :=
  (denylist.messageFor? r.signature).map fun message => ⟨r.position, message⟩

/-- The comments permit a reference at the position. -/
def isPermitted (comments : CommentTable) (position : Position) : Bool :=
  (comments.reasonAt? position).isSome

/-- What a package adds to a report. -/
def outcome (a : Analyzer) (m : Model) (p : Package) : PackageOutcome :=
  let references := a.includedReferences m p
  match a.policy with
  | .listAll =>
    ⟨references.map fun r => ⟨r.position, r.signature⟩, p.files.length, 0⟩
  | .check denylist =>
    let comments := CommentTable.ofPackage p
    let found := references.filterMap (forbidden? denylist)
    ⟨found.filter fun d => !isPermitted comments d.position, p.files.length,
      found.countP fun d => isPermitted comments d.position⟩

/-- The report with what a package adds to it. -/
def addOutcome (r : Report) (o : PackageOutcome) : Report :=
  { r with
    diagnostics := r.diagnostics ++ o.diagnostics
    packagesChecked := r.packagesChecked + 1
    filesChecked := r.filesChecked + o.files
    suppressed := r.suppressed + o.suppressed }

/-- The report on a model, in the order of positions. -/
def report (a : Analyzer) (m : Model) : Report :=
  ((m.packages.map (a.outcome m)).foldl addOutcome (.empty a.policy.mode)).sort

/-- There is nothing to look for. -/
def isIdle (a : Analyzer) : Bool :=
  match a.policy with
  | .listAll => false
  | .check denylist => denylist.isEmpty

/-- Runs the analysis.  If there is nothing to look for, nothing is loaded.  The workers are taken
to start. -/
def analyze (a : Analyzer) : Except ResolveError Report :=
  if a.isIdle then .ok (.empty a.policy.mode)
  else
    match a.loader a.specs a.dir with
    | .error e => .error e
    | .ok model => model.validate.map a.report

end Analyzer

/-- Builds the analysis asked for and runs it. -/
def AnalysisRequest.run (r : AnalysisRequest) (workingDir : Path) : Except AnalysisError Report :=
  match r.build workingDir with
  | .error e => .error (.config e)
  | .ok analyzer =>
    match analyzer.analyze with
    | .error e => .error (.resolve e)
    | .ok report => .ok report

end CallPolicy
