import CallPolicy.FileTree.Basic
import CallPolicy.ResolveError
import CallPolicy.StableSort

/-!
# Finding model files

A specifier names model files: a file names itself, a directory names the model files in it, and
`D/...` names those in `D` and in the directories below it.  A model file is told by its name.
Directories named `vendor` or `testdata`, or with a name that begins with `.` or `_`, are not
entered.  A relative specifier is seen from a given directory.

A search is the same for names that are no texts: a file with such a name is no model file, and a
directory with such a name is entered.  What is found is told by the names that lead to it from
where the search begins, and becomes a path where all names are texts.

## Termination

Collecting is structural in the tree.
-/

namespace CallPolicy

/-! ## Names -/

/-- How the name of a model file ends. -/
def modelSuffix : String := ".callgate.json"

/-- The text ends as the names of model files do and is not the ending alone. -/
def isModelText (text : String) : Bool :=
  match Text.before? modelSuffix.toList text.toList with
  | some (_ :: _) => true
  | _ => false

/-- The text is that of a directory which is not entered. -/
def isSkippedText (text : String) : Bool :=
  text = "vendor" || text = "testdata" || text.toList.head? = some '.' ||
    text.toList.head? = some '_'

section

variable {ν : Type} [FileName ν]

/-- The name is that of a model file; one that is no text is not. -/
def isModelName (name : ν) : Bool :=
  (FileName.text? name).any isModelText

/-- The directory is not entered; one with a name that is no text is. -/
def isSkippedDir (name : ν) : Bool :=
  (FileName.text? name).any isSkippedText

end

/-- The path names a model file. -/
def Path.isModelFile (p : Path) : Bool :=
  p.fileName?.any isModelName

/-! ## Searching a directory -/

namespace FileNode

variable {ν : Type} [FileName ν]

mutual

/-- The names that lead to the model files at the entry `name` of a directory: to the entry itself,
or to those below it if `deep`. -/
def modelNamesAt (deep : Bool) (name : ν) : FileNode ν → List (List ν)
  | .file _ => if isModelName name then [[name]] else []
  | .dir entries =>
    if deep && !isSkippedDir name then (modelNames deep entries).map (name :: ·) else []

/-- The names that lead to the model files among the entries of a directory, and below it if
`deep`. -/
def modelNames (deep : Bool) : List (ν × FileNode ν) → List (List ν)
  | [] => []
  | (name, node) :: rest => node.modelNamesAt deep name ++ modelNames deep rest

end

end FileNode

/-- What was found, in the order of the names. -/
def sortNames {ν : Type} [Ord ν] (found : List (List ν)) : List (List ν) :=
  stableSort (fun a b => (compare a b).isLE) found

/-- The names that lead to the model files where a search begins, in their order, if there are any;
no names lead to a file where it begins.  The path to there plays no part. -/
def FileNode.find? {ν : Type} [FileName ν] [Ord ν] (deep : Bool) :
    FileNode ν → Option (List (List ν))
  | .file _ => if deep then none else some [[]]
  | .dir entries =>
    match modelNames deep entries with
    | [] => none
    | found => some (sortNames found)

/-! ## Specifiers -/

namespace FileTree

/-- What a specifier names: a path as it is to be joined to the directory of the search, and whether
directories below it are searched too. -/
structure Target where
  base : List Char
  deep : Bool
deriving DecidableEq, Repr

/-- The specifier taken apart. -/
def Target.ofSpec (spec : String) : Target :=
  let (base, deep) :=
    match Text.before? "...".toList spec.toList with
    | some base => (Text.trimEnd (· == '/') base, true)
    | none => (spec.toList, false)
  ⟨Text.trimMarks '.' ['/'] base.length base, deep⟩

/-- Where the search begins. -/
def Target.root (target : Target) (dir : Path) : Path :=
  if target.base = [] || target.base = ['.'] then dir else dir.join ⟨String.ofList target.base⟩

/-- The names that lead to the model files that a specifier names, from where the search begins. -/
def find? {ν : Type} [DecidableEq ν] [FileName ν] [Ord ν] (t : FileTree ν) (spec : String)
    (dir : Path) : Option (List (List ν)) :=
  let target := Target.ofSpec spec
  match t.lookup (target.root dir) with
  | .ok node => node.find? target.deep
  | .error _ => none

/-- The model files that a specifier names, in the order of their components. -/
def discover (t : FileTree) (spec : String) (dir : Path) : Except ResolveError (List Path) :=
  match t.find? spec dir with
  | none => .error (.notFound spec dir)
  | some found => .ok (found.map ((Target.ofSpec spec).root dir).joinAll)

end FileTree

end CallPolicy
