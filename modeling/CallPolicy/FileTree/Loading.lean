import CallPolicy.Codec.Model
import CallPolicy.FileTree.Discovery
import CallPolicy.Model.Selection
import CallPolicy.OrderedMap

/-!
# Loading models from files

A model file holds one model as JSON text.  Relative paths in it are relative to the directory of
the file.  The models of several files are merged in the order of the files; a file that several
specifiers name is loaded once, under the first of its spellings.

Models are loaded from trees in which all names are texts.
-/

namespace CallPolicy

/-- The path as seen from a directory, if it is relative. -/
def Path.rebase (base p : Path) : Path :=
  if p.isAbsolute then p else base.join p

namespace FileTree

/-- The model in a file. -/
def loadModel (t : FileTree) (path : Path) : Except ResolveError Model :=
  match t.readText path with
  | .error cause => .error (.unreadable path cause)
  | .ok text =>
    match Model.parse? text with
    | none => .error (.malformed path)
    | some model =>
      model.validate.map fun model =>
        -- the root has no parent; no model can be read from it either
        match path.parent? with
        | some base => model.mapPaths (Path.rebase base)
        | none => model

/-- Model files by their components, each in its first spelling. -/
abbrev FileSet := OrderedMap (List Path.Component) Path

/-- The set with more files. -/
def FileSet.addAll (files : FileSet) (paths : List Path) : FileSet :=
  paths.foldl (fun files p => files.insertNew p.components p) files

/-- The files that specifiers name, or the error of the first one that names none. -/
def collect (t : FileTree) (dir : Path) : List String → FileSet → Except ResolveError FileSet
  | [], files => .ok files
  | spec :: specs, files =>
    match t.discover spec dir with
    | .error e => .error e
    | .ok found => collect t dir specs (files.addAll found)

/-- The models of files, merged in order after a given one. -/
def mergeFiles (t : FileTree) : Model → List Path → Except ResolveError Model
  | model, [] => .ok model
  | model, path :: paths =>
    match t.loadModel path with
    | .error e => .error e
    | .ok next => mergeFiles t (model.merge next) paths

/-- The specifiers to search for: everything, if none is given. -/
def effectiveSpecs (specs : List String) : List String :=
  if specs.isEmpty then [allPackages] else specs

/-- The merged model of all files that specifiers name. -/
def loadModels (t : FileTree) (specs : List String) (dir : Path) : Except ResolveError Model :=
  match t.collect dir (effectiveSpecs specs) .empty with
  | .error e => .error e
  | .ok files => t.mergeFiles .empty files.values

end FileTree

end CallPolicy
