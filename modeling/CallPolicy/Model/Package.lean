import CallPolicy.Position
import CallPolicy.Text.Basic

/-!
# Packages

An analyzed package: its source files, the identifier occurrences in them with the symbols they
resolve to, and the comments.
-/

namespace CallPolicy

/-- A source file; the lines are empty when its text is not known. -/
structure SourceFile where
  path : Path
  lines : List String := []
deriving DecidableEq, Repr, Inhabited

namespace SourceFile

/-- The file with the lines of a text. -/
def ofSource (path : Path) (source : String) : SourceFile :=
  ⟨path, (Text.lines source.toList).map String.ofList⟩

/-- The line with the given number, counted from one. -/
def line? (f : SourceFile) : Nat → Option String
  | 0 => none
  | n + 1 => f.lines[n]?

end SourceFile

/-- An identifier in the source and the number of the symbol that it resolves to. -/
structure Occurrence where
  position : Position
  symbol : Nat
deriving DecidableEq, Repr, Inhabited

/-- A comment, placed at the line where it starts; the text includes the `//`. -/
structure Comment where
  file : Path
  line : Nat
  text : String
deriving DecidableEq, Repr, Inhabited

/-- An analyzed package. -/
structure Package where
  path : String
  files : List SourceFile := []
  uses : List Occurrence := []
  comments : List Comment := []
deriving DecidableEq, Repr, Inhabited

namespace Package

/-- The package with one more file. -/
def addFile (p : Package) (file : SourceFile) : Package :=
  { p with files := p.files ++ [file] }

/-- The package with one more occurrence. -/
def addUse (p : Package) (use : Occurrence) : Package :=
  { p with uses := p.uses ++ [use] }

/-- The package with one more comment. -/
def addComment (p : Package) (comment : Comment) : Package :=
  { p with comments := p.comments ++ [comment] }

/-- The package with `k` added to the number of each symbol it uses. -/
def shiftSymbols (k : Nat) (p : Package) : Package :=
  { p with uses := p.uses.map fun use => { use with symbol := use.symbol + k } }

/-- The package with `f` applied to each file path in it. -/
def mapPaths (f : Path → Path) (p : Package) : Package :=
  { p with
    files := p.files.map fun file => { file with path := f file.path }
    uses := p.uses.map fun use =>
      { use with position := { use.position with file := f use.position.file } }
    comments := p.comments.map fun comment => { comment with file := f comment.file } }

end Package

end CallPolicy
