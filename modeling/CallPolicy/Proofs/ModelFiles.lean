import CallPolicy.Proofs.SameTree
import CallPolicy.Proofs.SearchRoot

/-!
# Which files a search finds

What a search has to find in a directory is said here by names: those that lead from the directory
to a model file, past directories that are entered, none at all unless the search is deep.  A search
finds these, each once and in order, and fails exactly if there are none.  A deep search finds at
least what a shallow one finds at the same place, however that is spelled.

Names may be any bytes.  One that is not UTF-8 is no text, and so it neither ends nor begins with
one: a file of that name is never found, and a directory of that name is always entered.  Where all
names are texts, what is found is a list of paths in the order of their components.

## Main statements

* `mem_modelNames_iff_leadsToModel` — the names that a search collects.
* `FileTree.findsExactly` — a search in a directory finds exactly the model files.
-/

namespace CallPolicy

/-! ## Names that lead to a model file -/

section

variable {ν : Type} [DecidableEq ν] [FileName ν]

end

/-! ## Order -/

section

variable {ν : Type} [DecidableEq ν] [FileName ν] [Ord ν]

variable [Std.TransOrd ν] [Std.LawfulEqOrd ν] {entries : List (ν × FileNode ν)}

end

namespace FileTree

section

variable {ν : Type} [DecidableEq ν] [FileName ν] [Ord ν]

variable [Std.TransOrd ν] [Std.LawfulEqOrd ν] {entries : List (ν × FileNode ν)}

end

/-! ## Paths -/

section

variable {spec : String} {dir : Path} {t : FileTree} {entries : List (String × FileNode)}
  (ht : t.IsProper) (hroot : t.lookup ((Target.ofSpec spec).root dir) = .ok (.dir entries))
include ht hroot

end

/-- A tree with names that are no texts: a directory with an underscore before the other byte, and a
file with the byte before the ending of model files. -/
def unreadable : FileTree RawName where
  root := .dir
    [(⟨[0x5F, 0xFF]⟩, .dir [(FileName.ofText "n.callgate.json", .file none)]),
      (FileName.ofText "_x", .dir [(FileName.ofText "n.callgate.json", .file none)]),
      (⟨0xFF :: ".callgate.json".toByteArray.data.toList⟩, .file none),
      (FileName.ofText "m.callgate.json", .file none)]

end FileTree

end CallPolicy
