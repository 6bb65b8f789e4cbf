import CallPolicy.Model.References
import CallPolicy.Text.Blank

/-!
# Comments that permit a reference

A reference is permitted by a comment on the line directly above it that begins with `// OK: ` and
goes on with a reason.  The reason is mandatory.

The comments of a package are those it reports.  Only a file for which it reports none is searched
for lines that are a `//` comment as a whole, because such a line may also stand inside a longer
comment or a text literal.
-/

namespace CallPolicy

/-- How a comment begins that permits a reference. -/
def okMarker : String := "// OK: "

/-- The reason that a comment gives for permitting a reference: what follows the marker, without
blanks at its end, if that begins with a character other than a blank. -/
def permitReason? (text : String) : Option String :=
  match Text.after? okMarker.toList text.toList with
  | some (c :: rest) =>
    if Text.isBlank c then none else some (String.ofList (Text.trimEnd Text.isBlank (c :: rest)))
  | _ => none

/-- A line of a file, where the file counts by its components. -/
structure LineKey where
  file : List Path.Component
  line : Nat
deriving DecidableEq, Repr

namespace LineKey

instance : Ord LineKey :=
  ⟨compareLex (compareOn fun k => k.file) (compareOn fun k => k.line)⟩

instance : Std.TransOrd LineKey :=
  inferInstanceAs (Std.TransCmp (compareLex (compareOn fun k : LineKey => k.file)
    (compareOn fun k => k.line)))

instance : Std.LawfulEqOrd LineKey where
  eq_of_compare {a b} h := by
    have h' : (compare a.file b.file).then (compare a.line b.line) = .eq := h
    rw [Ordering.then_eq_eq] at h'
    obtain ⟨fa, la⟩ := a
    obtain ⟨fb, lb⟩ := b
    have hf := Std.LawfulEqOrd.eq_of_compare h'.1
    have hl := Std.LawfulEqOrd.eq_of_compare h'.2
    simp_all

end LineKey

/-- Comments by file and line. -/
structure CommentTable where
  comments : OrderedMap LineKey String

namespace CommentTable

/-- No comments. -/
def empty : CommentTable := ⟨.empty⟩

/-- The table with `text` at a line, in place of what was there. -/
def insert (t : CommentTable) (file : Path) (line : Nat) (text : String) : CommentTable :=
  ⟨t.comments.insert ⟨file.components, line⟩ text⟩

/-- The comment at a line. -/
def get? (t : CommentTable) (file : Path) (line : Nat) : Option String :=
  t.comments.get? ⟨file.components, line⟩

/-- A look-up after an insertion; files are told apart by their components. -/
theorem get?_insert (t : CommentTable) (file file' : Path) (line line' : Nat) (text : String) :
    (t.insert file line text).get? file' line' =
      if file'.components = file.components ∧ line' = line then some text
      else t.get? file' line' := by
  simp [insert, get?, OrderedMap.get?_insert]

/-- The number of comments. -/
def size (t : CommentTable) : Nat :=
  t.comments.size

/-- There are no comments. -/
def isEmpty (t : CommentTable) : Bool :=
  t.comments.isEmpty

/-- Some comment stands in the file. -/
def hasFile (t : CommentTable) (file : Path) : Bool :=
  t.comments.entries.any fun e => e.1.file == file.components

/-- The comment that a source line is as a whole. -/
def wholeLine? (line : String) : Option String :=
  -- the carriage returns go last, so blanks in front of them stay
  let trimmed := Text.trimEnd (· == '\r') (Text.trimStart Text.isBlank line.toList)
  if (Text.after? "//".toList trimmed).isSome then some (String.ofList trimmed) else none

/-- The table with the comments that the numbered lines of a file are. -/
def scanLines (file : Path) (t : CommentTable) (lines : List (String × Nat)) : CommentTable :=
  lines.foldr (fun line t =>
    match wholeLine? line.1 with
    | some text => t.insert file line.2 text
    | none => t) t

/-- The table with the comments found in the text of a file, unless some are known for it. -/
def scanFile (t : CommentTable) (file : SourceFile) : CommentTable :=
  if t.hasFile file.path then t else scanLines file.path t (file.lines.zipIdx 1)

/-- The reported comments; the last one at a line counts. -/
def ofComments (comments : List Comment) : CommentTable :=
  ⟨.ofList (comments.map fun c => (⟨c.file.components, c.line⟩, c.text))⟩

/-- The comments of a package. -/
def ofPackage (p : Package) : CommentTable :=
  p.files.foldl scanFile (ofComments p.comments)

/-- The reason that permits a reference at the position: that of the comment on the line above. -/
def reasonAt? (t : CommentTable) (position : Position) : Option String :=
  if 2 ≤ position.line then (t.get? position.file (position.line - 1)).bind permitReason? else none

end CommentTable

end CallPolicy
