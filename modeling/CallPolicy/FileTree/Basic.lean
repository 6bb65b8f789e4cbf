import CallPolicy.Entries
import CallPolicy.FileTree.Name
import CallPolicy.Path

/-!
# File trees

A snapshot of a file system: directories, and files that hold a text or something that is none.
There are no links, so `..` leads to the directory one came from.

Names may be of any kind; where nothing else is said, they are texts.  A path is always a text, so
it does not lead to an entry with a name that is none.

A path is walked segment by segment.  Whatever is left to walk, even an idle segment, can only be
walked from a directory; so `f/` does not reach the file `f`.

## Termination

Walking is structural in the segments, planting in the names.
-/

namespace CallPolicy

/-- Why a file cannot be read. -/
inductive FileError where
  | notFound
  | notDirectory
  | isDirectory
  | notText
  | nulInName
deriving DecidableEq, Repr

/-- The wording of a reason. -/
def FileError.message : FileError → String
  | .notFound => "No such file or directory (os error 2)"
  | .notDirectory => "Not a directory (os error 20)"
  | .isDirectory => "Is a directory (os error 21)"
  | .notText => "stream did not contain valid UTF-8"
  | .nulInName => "file name contained an unexpected NUL byte"

/-- A file or a directory. -/
inductive FileNode (ν : Type := String) where
  /-- A file; `none` if its bytes are not a text. -/
  | file (text : Option String)
  /-- A directory with its entries. -/
  | dir (entries : List (ν × FileNode ν))

namespace FileNode

variable {ν : Type}

instance : Inhabited (FileNode ν) := ⟨.dir []⟩

/-- The node that segments lead to, from `here`, which was reached through the directories `up`. -/
def walk [DecidableEq ν] [FileName ν] :
    List (FileNode ν) → FileNode ν → List (List Char) → Except FileError (FileNode ν)
  | _, here, [] => .ok here
  | _, .file _, _ :: _ => .error .notDirectory
  | up, .dir entries, s :: rest =>
    if Path.isIdle s then walk up (.dir entries) rest
    else if s = ['.', '.'] then
      -- the root is its own parent
      match up with
      | [] => walk [] (.dir entries) rest
      | parent :: up => walk up parent rest
    else
      match Entries.find? (FileName.ofText (String.ofList s)) entries with
      | none => .error .notFound
      | some child => walk (.dir entries :: up) child rest

/-- The node that takes the place of `old`; an empty directory leaves a directory as it is. -/
def replacing (new old : FileNode) : FileNode :=
  match new, old with
  | .dir [], .dir entries => .dir entries
  | new, _ => new

/-- The node with another one planted below it, and directories on the way. -/
def plant (new : FileNode) : List String → FileNode → FileNode
  | [], old => replacing new old
  | name :: names, .dir entries =>
    let old := (Entries.find? name entries).getD (.dir [])
    .dir (Entries.put name (plant new names old) entries)
  | name :: names, .file _ => .dir [(name, plant new names (.dir []))]

end FileNode

/-- A file tree with the directory from which relative paths are walked. -/
structure FileTree (ν : Type := String) where
  root : FileNode ν := .dir []
  workingDir : Path := ⟨"/"⟩
deriving Inhabited

namespace FileTree

/-- Names from the root, with each `..` taking back the name before it. -/
def settle (names : List String) : List Path.Component → List String
  | [] => names
  | .parent :: rest => settle names.dropLast rest
  | .name n :: rest => settle (names ++ [n]) rest
  | _ :: rest => settle names rest

/-- The names from the root that an absolute path stands for. -/
def namesOf (p : Path) : List String :=
  settle [] p.components

/-- The absolute path with `..` taken back. -/
def settledPath (p : Path) : Path :=
  ⟨"/" ++ "/".intercalate (namesOf p)⟩

/-- The tree with a file or directory planted at an absolute path. -/
def plant (t : FileTree) (p : Path) (node : FileNode) : FileTree :=
  { t with root := FileNode.plant node (namesOf p) t.root }

/-- The node that a path leads to. -/
def lookup {ν : Type} [DecidableEq ν] [FileName ν] (t : FileTree ν) (p : Path) :
    Except FileError (FileNode ν) :=
  if p.text.isEmpty then .error .notFound
  else if '\x00' ∈ p.text.toList then .error .nulInName
  else FileNode.walk [] t.root (t.workingDir.join p).segments

/-- The path leads to a file. -/
def isFile (t : FileTree) (p : Path) : Bool :=
  match t.lookup p with
  | .ok (.file _) => true
  | _ => false

/-- The text of the file that a path leads to. -/
def readText (t : FileTree) (p : Path) : Except FileError String :=
  match t.lookup p with
  | .error e => .error e
  | .ok (.dir _) => .error .isDirectory
  | .ok (.file none) => .error .notText
  | .ok (.file (some text)) => .ok text

end FileTree

end CallPolicy
