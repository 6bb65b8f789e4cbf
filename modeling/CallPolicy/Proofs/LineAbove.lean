import CallPolicy.CommentTable
import CallPolicy.Proofs.OrderedMap
import Mathlib.Data.List.TakeWhile

/-!
# The comment on the line above

Which comment stands at a line is said here without the table that holds the comments.  A file for
which the package reports comments has those, the last one at each line, and its text is not read.
Any other file has the lines that are comments as a whole, in the first of its entries that has such
a line; entries before it count as if they were not there, and entries after it are not read.

The table serves as its own record of the files that are done with.  So the search through the
source files is followed with the answers of the table to two questions: whether it has something
for a file, and what it has at a line.

## Main statements

* `permitReason?_eq_some_iff`, `CommentTable.wholeLine?_eq_some_iff` — the comments that count.
* `CommentTable.get?_foldl_scanFile` — what a search through source files finds.
* `CommentTable.get?_ofPackage_eq_some_iff` — the comment at a line.
* `CommentTable.permitted_by_line_above` — a reference is permitted by the comment above it.
-/

namespace CallPolicy

/-! ## Texts of comments -/

/-- The text of a comment gives the reason: it is the marker, the reason, and blanks after it. -/
structure GivesReason (text reason : String) : Prop where
  parts : ∃ blanks, text.toList = "// OK: ".toList ++ reason.toList ++ blanks ∧
    ∀ c ∈ blanks, Text.isBlank c = true
  nonempty : reason ≠ ""
  first : ∀ c ∈ reason.toList.head?, Text.isBlank c = false
  last : ∀ c ∈ reason.toList.getLast?, Text.isBlank c = false

/-- The reason that is read is the one that the text gives. -/
theorem permitReason?_eq_some_iff {text reason : String} :
    permitReason? text = some reason ↔ GivesReason text reason := by
  constructor
  · intro h
    unfold permitReason? at h
    split at h
    next c rest hafter =>
      split at h
      · cases h
      next hblank =>
        have hc : Text.isBlank c = false := Bool.eq_false_iff.2 hblank
        obtain ⟨blanks, hsplit, hblanks, hlast⟩ :=
          Text.exists_eq_trimEnd_append Text.isBlank (c :: rest)
        rw [Text.trimEnd_cons hc] at h hsplit hlast
        have hreason : reason.toList = c :: Text.trimEnd Text.isBlank rest := by
          rw [← Option.some.inj h, String.toList_ofList]
        refine ⟨⟨blanks, ?_, hblanks⟩, ?_, ?_, ?_⟩
        · rw [Text.after?_eq_some_iff.1 hafter, hsplit, hreason, List.append_assoc]
          rfl
        · rintro rfl
          cases hreason
        · rw [hreason]
          rintro d ⟨⟩
          exact hc
        · rwa [hreason]
    next => cases h
  · rintro ⟨⟨blanks, htext, hblanks⟩, hne, hfirst, hlast⟩
    have hafter : Text.after? okMarker.toList text.toList = some (reason.toList ++ blanks) := by
      rw [Text.after?_eq_some_iff, htext, List.append_assoc]
      rfl
    have htrim : Text.trimEnd Text.isBlank (reason.toList ++ blanks) = reason.toList :=
      Text.trimEnd_append hblanks hlast
    cases hreason : reason.toList with
    | nil => exact absurd (String.toList_eq_nil_iff.1 hreason) hne
    | cons c rest =>
      have hc : Text.isBlank c = false := hfirst c (by rw [hreason]; rfl)
      rw [hreason] at hafter htrim
      rw [permitReason?, hafter]
      simp only [List.cons_append] at htrim ⊢
      rw [if_neg (by simp [hc]), htrim, ← hreason, String.ofList_toList]

/-- The text is a comment that a source line is as a whole: blanks may stand before it and carriage
returns after it. -/
structure IsWholeLine (line text : String) : Prop where
  parts : ∃ blanks returns, line.toList = blanks ++ text.toList ++ returns ∧
    (∀ c ∈ blanks, Text.isBlank c = true) ∧ ∀ c ∈ returns, c = '\r'
  slashes : ∃ rest, text.toList = "//".toList ++ rest
  last : ∀ c ∈ text.toList.getLast?, c ≠ '\r'

/-- The comment that is read off a line is what the line is as a whole. -/
theorem CommentTable.wholeLine?_eq_some_iff {line text : String} :
    wholeLine? line = some text ↔ IsWholeLine line text := by
  constructor
  · intro h
    simp only [wholeLine?] at h
    split at h
    next hslashes =>
      obtain ⟨returns, hsplit, hreturns, hlast⟩ :=
        Text.exists_eq_trimEnd_append (· == '\r') (Text.trimStart Text.isBlank line.toList)
      obtain ⟨rest, hrest⟩ := Option.isSome_iff_exists.1 hslashes
      have htext : text.toList =
          Text.trimEnd (· == '\r') (Text.trimStart Text.isBlank line.toList) := by
        rw [← Option.some.inj h, String.toList_ofList]
      refine ⟨⟨line.toList.takeWhile Text.isBlank, returns, ?_, ?_, ?_⟩, ?_, ?_⟩
      · rw [htext, List.append_assoc, ← hsplit]
        exact List.takeWhile_append_dropWhile.symm
      · exact fun c => List.mem_takeWhile_imp
      · simpa using hreturns
      · exact ⟨rest, htext.trans (Text.after?_eq_some_iff.1 hrest)⟩
      · simpa [htext] using hlast
    next => cases h
  · rintro ⟨⟨blanks, returns, hline, hblanks, hreturns⟩, ⟨rest, hslashes⟩, hlast⟩
    have hstart : Text.trimStart Text.isBlank line.toList = text.toList ++ returns := by
      rw [Text.trimStart, hline, List.append_assoc, List.dropWhile_append_of_pos hblanks, hslashes]
      exact List.dropWhile_cons_of_neg (by decide)
    have htrim : Text.trimEnd (· == '\r') (text.toList ++ returns) = text.toList :=
      Text.trimEnd_append (by simpa using hreturns) (by simpa using hlast)
    have hafter : Text.after? "//".toList text.toList = some rest :=
      Text.after?_eq_some_iff.2 hslashes
    simp only [wholeLine?, hstart, htrim, hafter, Option.isSome_some, if_true, String.ofList_toList]

/-! ## Comments of a package -/

/-- Some line of the file is a comment as a whole. -/
def SourceFile.HasComment (source : SourceFile) : Prop :=
  ∃ line ∈ source.lines, ∃ text, IsWholeLine line text

namespace Package

/-- The package reports a comment for the file. -/
def ReportsIn (p : Package) (file : Path) : Prop :=
  ∃ c ∈ p.comments, c.file.components = file.components

/-- The text of the last comment that the package reports for a line of the file. -/
def LastReported (p : Package) (file : Path) (line : Nat) (text : String) : Prop :=
  ∃ before c after, p.comments = before ++ c :: after ∧
    c.file.components = file.components ∧ c.line = line ∧ c.text = text ∧
    ∀ later ∈ after, later.file.components = file.components → later.line ≠ line

/-- The first entry for the file in which a line is a comment as a whole. -/
def FirstCommented (p : Package) (file : Path) (source : SourceFile) : Prop :=
  ∃ before after, p.files = before ++ source :: after ∧
    source.path.components = file.components ∧ source.HasComment ∧
    ∀ earlier ∈ before, earlier.path.components = file.components → ¬earlier.HasComment

/-- The comment at a line of a file. -/
inductive CommentAt (p : Package) (file : Path) (line : Nat) (text : String) : Prop
  /-- A file with reported comments has only these. -/
  | reported (h : p.LastReported file line text)
  /-- Any other file has those that its lines are. -/
  | scanned {source : SourceFile} {content : String} (hnone : ¬p.ReportsIn file)
    (hfirst : p.FirstCommented file source) (hline : source.line? line = some content)
    (hcomment : IsWholeLine content text)

end Package

namespace CommentTable

/-! ## Reported comments -/

theorem hasFile_iff (t : CommentTable) (file : Path) :
    t.hasFile file = true ↔ ∃ line text, t.get? file line = some text := by
  simp only [hasFile, List.any_eq_true, beq_iff_eq, get?, ← OrderedMap.mem_entries_iff]
  constructor
  · rintro ⟨⟨⟨components, line⟩, text⟩, hmem, rfl⟩
    exact ⟨line, text, hmem⟩
  · rintro ⟨line, text, hmem⟩
    exact ⟨_, hmem, rfl⟩

theorem get?_of_hasFile_eq_false {t : CommentTable} {file : Path} (h : t.hasFile file = false)
    (line : Nat) : t.get? file line = none := by
  rw [Bool.eq_false_iff, Ne, hasFile_iff] at h
  rw [Option.eq_none_iff_forall_ne_some]
  exact fun text htext => h ⟨line, text, htext⟩

/-- A comment counts unless a later one stands at its line. -/
theorem get?_ofComments_cons (c : Comment) (rest : List Comment) (file : Path) (line : Nat) :
    (ofComments (c :: rest)).get? file line =
      ((ofComments rest).get? file line).or
        (if file.components = c.file.components ∧ line = c.line then some c.text else none) := by
  rw [get?, ofComments, List.map_cons, OrderedMap.get?_ofList_cons]
  simp only [Std.LawfulEqOrd.compare_eq_iff_eq, LineKey.mk.injEq, get?, ofComments]
  split
  next h =>
    rw [h.1, h.2]
    cases OrderedMap.get? _ (⟨c.file.components, c.line⟩ : LineKey) <;> rfl
  next => rw [Option.or_none]

/-- The last comment at a line counts. -/
theorem get?_ofComments_eq_some_iff {p : Package} {file : Path} {line : Nat} {text : String} :
    (ofComments p.comments).get? file line = some text ↔ p.LastReported file line text := by
  rw [get?, ofComments, OrderedMap.get?_ofList_eq_some_iff]
  constructor
  · rintro ⟨before, after, hsplit, hafter⟩
    obtain ⟨before, rest, hcomments, rfl, hrest⟩ := List.map_eq_append_iff.1 hsplit
    obtain ⟨c, after, rfl, hc, rfl⟩ := List.map_eq_cons_iff.1 hrest
    simp only [Prod.mk.injEq, LineKey.mk.injEq] at hc
    refine ⟨before, c, after, hcomments, hc.1.1, hc.1.2, hc.2, ?_⟩
    intro later hlater hfile hline
    exact hafter _ (List.mem_map_of_mem hlater) (by rw [hfile, hline])
  · rintro ⟨before, c, after, hcomments, hfile, rfl, rfl, hafter⟩
    refine ⟨_, _, by rw [hcomments, List.map_append, List.map_cons, hfile], ?_⟩
    intro b hb hkey
    obtain ⟨later, hlater, rfl⟩ := List.mem_map.1 hb
    simp only [LineKey.mk.injEq] at hkey
    exact hafter later hlater hkey.1 hkey.2

theorem hasFile_ofComments_iff {p : Package} {file : Path} :
    (ofComments p.comments).hasFile file = true ↔ p.ReportsIn file := by
  rw [hasFile_iff]
  constructor
  · rintro ⟨line, text, h⟩
    obtain ⟨before, c, after, hcomments, hfile, -⟩ := get?_ofComments_eq_some_iff.1 h
    exact ⟨c, by simp [hcomments], hfile⟩
  · rintro ⟨c, hc, hfile⟩
    have hsome : (ofComments p.comments).get? file c.line ≠ none := by
      rw [get?, ofComments, Ne, OrderedMap.get?_ofList_eq_none_iff]
      intro hnone
      exact hnone _ (List.mem_map_of_mem hc) (by rw [hfile])
    obtain ⟨text, htext⟩ := Option.ne_none_iff_exists'.1 hsome
    exact ⟨c.line, text, htext⟩

/-! ## Source files -/

/-- The comment that a line of the file is as a whole. -/
def commentAt? (source : SourceFile) (line : Nat) : Option String :=
  (source.line? line).bind wholeLine?

/-- The entry is for the file, and some line of it is a comment as a whole. -/
def isCommentedEntry (file : Path) (source : SourceFile) : Bool :=
  source.path.components == file.components && source.lines.any fun line => (wholeLine? line).isSome

theorem isCommentedEntry_iff {file : Path} {source : SourceFile} :
    isCommentedEntry file source = true ↔
      source.path.components = file.components ∧ source.HasComment := by
  simp [isCommentedEntry, SourceFile.HasComment, Option.isSome_iff_exists, wholeLine?_eq_some_iff]

theorem exists_commentAt?_iff (source : SourceFile) :
    (∃ line text, commentAt? source line = some text) ↔
      ∃ line ∈ source.lines, (wholeLine? line).isSome = true := by
  simp only [commentAt?, Option.bind_eq_some_iff, Option.isSome_iff_exists]
  constructor
  · rintro ⟨n, text, content, hline, htext⟩
    cases n with
    | zero => cases hline
    | succ n => exact ⟨content, List.mem_of_getElem? hline, text, htext⟩
  · rintro ⟨content, hmem, text, htext⟩
    obtain ⟨n, hn⟩ := List.mem_iff_getElem?.1 hmem
    exact ⟨n + 1, text, content, hn, htext⟩

theorem get?_scanLines_cons (file file' : Path) (t : CommentTable) (line : String × Nat)
    (rest : List (String × Nat)) (n : Nat) :
    (scanLines file t (line :: rest)).get? file' n =
      (if file'.components = file.components ∧ n = line.2 then wholeLine? line.1 else none).or
        ((scanLines file t rest).get? file' n) := by
  rw [scanLines, List.foldr_cons, ← scanLines]
  split
  next text htext =>
    rw [get?_insert, htext]
    split <;> rfl
  next hnone => simp [hnone]

/-- The table has at a line of the file what the line is, or else what it had there. -/
theorem get?_scanLines (file file' : Path) (t : CommentTable) (lines : List String) (k n : Nat) :
    (scanLines file t (lines.zipIdx k)).get? file' n =
      if file'.components = file.components ∧ k ≤ n then
        ((lines[n - k]?).bind wholeLine?).or (t.get? file' n)
      else t.get? file' n := by
  induction lines generalizing k with
  | nil => simp [scanLines]
  | cons line rest ih =>
    rw [List.zipIdx_cons, get?_scanLines_cons, ih]
    by_cases hfile : file'.components = file.components
    · rcases Nat.lt_trichotomy n k with hn | rfl | hn
      · simp [hn.ne, Nat.not_le.2 hn, Nat.not_le.2 (Nat.lt_succ_of_lt hn)]
      · rw [if_neg (show ¬(file'.components = file.components ∧ n + 1 ≤ n) by omega)]
        simp [hfile]
      · have hsub : n - k = n - (k + 1) + 1 := by omega
        simp [hfile, hn.ne', hn.le, Nat.succ_le_of_lt hn, hsub]
    · simp [hfile]

section ScanFile

variable {t : CommentTable} {source : SourceFile} {file : Path}

/-- Only what stands in the entry's own file changes, and only if nothing stood there. -/
theorem get?_scanFile (n : Nat) :
    (t.scanFile source).get? file n =
      if source.path.components = file.components ∧ t.hasFile file = false then
        commentAt? source n
      else t.get? file n := by
  rw [scanFile]
  split
  next hdone =>
    split
    next h =>
      rw [hasFile, h.1, ← hasFile, h.2] at hdone
      cases hdone
    next => rfl
  next hnew =>
    rw [get?_scanLines]
    by_cases hfile : source.path.components = file.components
    · have hnone : t.hasFile file = false := by
        rw [hasFile, ← hfile, ← hasFile]
        exact Bool.eq_false_iff.2 hnew
      rw [get?_of_hasFile_eq_false hnone, Option.or_none]
      cases n with
      | zero => simp [commentAt?, SourceFile.line?]
      | succ n => simp [hfile, hnone, commentAt?, SourceFile.line?]
    · rw [if_neg fun h => hfile h.1.symm, if_neg fun h => hfile h.1]

theorem hasFile_scanFile :
    (t.scanFile source).hasFile file = (t.hasFile file || isCommentedEntry file source) := by
  rw [Bool.eq_iff_iff, Bool.or_eq_true, hasFile_iff]
  by_cases h : source.path.components = file.components ∧ t.hasFile file = false
  · simp only [get?_scanFile, if_pos h, exists_commentAt?_iff]
    simp [isCommentedEntry, h.1, h.2]
  · simp only [get?_scanFile, if_neg h, ← hasFile_iff, isCommentedEntry_iff]
    rw [not_and, Bool.not_eq_false] at h
    exact ⟨.inl, fun h' => h'.elim id fun hentry => h hentry.1⟩

/-- The search leaves a file alone that the table has something for. -/
theorem get?_foldl_scanFile_of_hasFile (h : t.hasFile file = true) (files : List SourceFile)
    (n : Nat) : (files.foldl scanFile t).get? file n = t.get? file n := by
  induction files generalizing t with
  | nil => rfl
  | cons source rest ih =>
    rw [List.foldl_cons, ih (by rw [hasFile_scanFile, h, Bool.true_or]), get?_scanFile,
      if_neg (by simp [h])]

/-- The search finds the comments in the first entry for the file that has any. -/
theorem get?_foldl_scanFile (h : t.hasFile file = false) (files : List SourceFile) (n : Nat) :
    (files.foldl scanFile t).get? file n =
      (files.find? (isCommentedEntry file)).bind (commentAt? · n) := by
  induction files generalizing t with
  | nil => exact get?_of_hasFile_eq_false h n
  | cons source rest ih =>
    have hnext : (t.scanFile source).hasFile file = isCommentedEntry file source := by
      rw [hasFile_scanFile, h, Bool.false_or]
    rw [List.foldl_cons]
    cases hentry : isCommentedEntry file source with
    | true =>
      rw [hentry] at hnext
      rw [get?_foldl_scanFile_of_hasFile hnext, get?_scanFile,
        if_pos ⟨(isCommentedEntry_iff.1 hentry).1, h⟩, List.find?_cons_of_pos hentry]
      rfl
    | false =>
      rw [hentry] at hnext
      rw [ih hnext, List.find?_cons_of_neg (by simp [hentry])]

end ScanFile

/-! ## Packages -/

/-- What the package reports for a file is all that counts there; other files are searched. -/
theorem get?_ofPackage (p : Package) (file : Path) (n : Nat) :
    (ofPackage p).get? file n =
      if (ofComments p.comments).hasFile file then (ofComments p.comments).get? file n
      else (p.files.find? (isCommentedEntry file)).bind (commentAt? · n) := by
  split
  next h => exact get?_foldl_scanFile_of_hasFile h p.files n
  next h => exact get?_foldl_scanFile (Bool.eq_false_iff.2 h) p.files n

theorem find?_isCommentedEntry_eq_some_iff {p : Package} {file : Path} {source : SourceFile} :
    p.files.find? (isCommentedEntry file) = some source ↔ p.FirstCommented file source := by
  rw [List.find?_eq_some_iff_append, isCommentedEntry_iff]
  simp only [Bool.not_eq_true', Bool.eq_false_iff, Ne, isCommentedEntry_iff, not_and]
  constructor
  · rintro ⟨⟨hfile, hcomment⟩, before, after, hfiles, hbefore⟩
    exact ⟨before, after, hfiles, hfile, hcomment, hbefore⟩
  · rintro ⟨before, after, hfiles, hfile, hcomment, hbefore⟩
    exact ⟨⟨hfile, hcomment⟩, before, after, hfiles, hbefore⟩

/-- **The comment at a line.** -/
theorem get?_ofPackage_eq_some_iff {p : Package} {file : Path} {n : Nat} {text : String} :
    (ofPackage p).get? file n = some text ↔ p.CommentAt file n text := by
  rw [get?_ofPackage]
  split
  next h =>
    rw [get?_ofComments_eq_some_iff]
    constructor
    · exact .reported
    · rintro (hlast | ⟨hnone, -, -, -⟩)
      · exact hlast
      · exact absurd (hasFile_ofComments_iff.1 h) hnone
  next h =>
    rw [hasFile_ofComments_iff] at h
    simp only [commentAt?, Option.bind_eq_some_iff, find?_isCommentedEntry_eq_some_iff]
    constructor
    · rintro ⟨source, hfirst, content, hline, htext⟩
      exact .scanned h hfirst hline (wholeLine?_eq_some_iff.1 htext)
    · rintro (⟨before, c, after, hcomments, hfile, -⟩ | ⟨-, hfirst, hline, hcomment⟩)
      · exact absurd ⟨c, by simp [hcomments], hfile⟩ h
      · exact ⟨_, hfirst, _, hline, wholeLine?_eq_some_iff.2 hcomment⟩

/-- **A reference is permitted exactly by the comment on the line above it:** with the reason that
this comment gives. -/
theorem permitted_by_line_above (p : Package) (r : Reference) :
    (∀ file line text, (ofPackage p).get? file line = some text ↔ p.CommentAt file line text) ∧
      ∀ reason, (ofPackage p).reasonAt? r.position = some reason ↔
        2 ≤ r.position.line ∧ ∃ text, p.CommentAt r.position.file (r.position.line - 1) text ∧
          GivesReason text reason := by
  refine ⟨fun file line text => get?_ofPackage_eq_some_iff, fun reason => ?_⟩
  rw [reasonAt?]
  split
  next hline =>
    simp [hline, Option.bind_eq_some_iff, get?_ofPackage_eq_some_iff, permitReason?_eq_some_iff]
  next hline => simp [hline]

end CommentTable

end CallPolicy
