import CallPolicy.CommandLine.Run

/-!
# The command

Takes a snapshot of the files that the arguments can lead to, runs on it, and prints the outcome.
The names in a snapshot are taken to be texts.
-/

namespace CallPolicy.CommandLine

/-- The text of a file, if it has one. -/
def readFileText (path : String) : IO (Option String) := do
  try
    return String.fromUTF8? (← IO.FS.readBinFile path)
  catch _ =>
    return none

/-- The directory below a path, without what a search leaves out.  Only model files are read. -/
partial def snapshotDir (path : String) : IO (List (String × FileNode)) := do
  let real ← IO.FS.realPath path
  let mut entries := []
  for entry in ← real.readDir do
    let inner := path ++ "/" ++ entry.fileName
    if ← entry.path.isDir then
      let below ← if isSkippedDir entry.fileName then pure [] else snapshotDir inner
      entries := (entry.fileName, .dir below) :: entries
    else if isModelName entry.fileName then
      entries := (entry.fileName, .file (← readFileText inner)) :: entries
    else
      entries := (entry.fileName, .file none) :: entries
  return entries

/-- The tree with what stands at a path, if anything does. -/
def addSnapshot (t : FileTree) (path : Path) : IO FileTree := do
  try
    let real ← IO.FS.realPath path.text
    if ← real.isDir then
      return t.plant path (.dir (← snapshotDir path.text))
    else if ← real.pathExists then
      return t.plant path (.file (← readFileText path.text))
    else
      return t
  catch _ =>
    return t

/-- The directory with the configuration for all runs. -/
def globalConfigDir : IO (Option Path) := do
  match ← IO.getEnv "CALLGATE_CONFIG_DIR" with
  | some dir => return some ⟨dir⟩
  | none => return (← IO.getEnv "HOME").map fun home => Path.join ⟨home⟩ ⟨".callgate"⟩

/-- What surrounds a run with the given arguments. -/
def readEnvironment (args : List String) : IO Environment := do
  let workingDir : Path := ⟨(← IO.currentDir).toString⟩
  let globalDir ← globalConfigDir
  let bare : FileTree := { workingDir }
  let mut tree := bare.plant workingDir (.dir [])
  if let .run a := Request.parse args then
    for place in places workingDir globalDir a do
      tree ← addSnapshot tree place
  return ⟨tree, globalDir⟩

end CallPolicy.CommandLine

/-- Runs the command with the given arguments. -/
def main (args : List String) : IO UInt32 := do
  let outcome := CallPolicy.CommandLine.run (← CallPolicy.CommandLine.readEnvironment args) args
  (← IO.getStdout).putStr outcome.stdout
  (← IO.getStderr).putStr outcome.stderr
  return UInt32.ofNat outcome.status
