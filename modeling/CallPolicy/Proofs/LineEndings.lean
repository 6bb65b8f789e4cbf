import CallPolicy.Proofs.FilteredView
import Mathlib.Data.List.Forall2
import Mathlib.Data.List.TakeWhile

/-!
# Carriage returns at the ends of lines

Source lines come with carriage returns at their ends or without them, depending on how their file
was written and how it was cut into lines.  That makes no difference to what is reported.

Two trimmings meet here, since a carriage return is a blank too.  From a line of blanks the blanks
at its start take everything, with whatever stands after it.  From any other line they leave what
does not begin with a blank, and the carriage returns after that are cut off from the end.  So a
line is the same comment as before or none as before.  A file has a comment as before, too, and
whether a later entry for its path is searched does not change.

## Main statements

* `Text.trimEnd_trimStart_append` — two trimmings cut off what both of them would.
* `CommentTable.wholeLine?_withReturns`, `CommentTable.ofPackage_withReturns` — the comments of a
  line and of a package.
* `Model.sameReports_of_withReturns` — every analysis gives the same report.
-/

namespace CallPolicy

/-- Functions that agree on related items agree on related lists. -/
theorem map_eq_map_of_forall₂ {α β : Type} {R : α → α → Prop} {f g : α → β} {xs ys : List α}
    (h : List.Forall₂ R xs ys) (hfg : ∀ x y, R x y → f x = g y) : xs.map f = ys.map g := by
  rw [← List.forall₂_eq_eq_eq, List.forall₂_map_left_iff, List.forall₂_map_right_iff]
  exact h.imp hfg

/-! ## Trimming at both ends -/

namespace Text

variable {p q : Char → Bool} {text tail : List Char}

theorem trimEnd_append_of_forall (htail : ∀ c ∈ tail, q c = true) :
    trimEnd q (text ++ tail) = trimEnd q text := by
  obtain ⟨cut, htext, hcut, hlast⟩ := exists_eq_trimEnd_append q text
  refine trimEnd_eq_iff.2 ⟨cut ++ tail, ?_, List.forall_mem_append.2 ⟨hcut, htail⟩, hlast⟩
  exact (congrArg (· ++ tail) htext).trans (List.append_assoc _ _ _)

/-- **Characters at the end that either trimming would cut off make no difference.** -/
theorem trimEnd_trimStart_append (hp : ∀ c ∈ tail, p c = true) (hq : ∀ c ∈ tail, q c = true) :
    trimEnd q (trimStart p (text ++ tail)) = trimEnd q (trimStart p text) := by
  unfold trimStart
  rw [List.dropWhile_append]
  split
  next hempty =>
    -- nothing is left of the text, and so nothing of what follows it
    rw [List.isEmpty_iff.1 hempty, List.dropWhile_eq_nil_iff.2 hp]
  next => exact trimEnd_append_of_forall hq

end Text

/-! ## Lines with carriage returns -/

/-- The second line is the first one with any number of carriage returns after it. -/
def Text.WithReturns (line line' : String) : Prop :=
  ∃ n, line' = line ++ String.ofList (List.replicate n '\r')

/-- The second file is the first one with carriage returns after some of its lines. -/
structure SourceFile.WithReturns (file file' : SourceFile) : Prop where
  path : file'.path = file.path
  lines : List.Forall₂ Text.WithReturns file.lines file'.lines

/-- The second package is the first one with carriage returns after some source lines. -/
structure Package.WithReturns (p p' : Package) : Prop where
  path : p'.path = p.path
  files : List.Forall₂ SourceFile.WithReturns p.files p'.files
  uses : p'.uses = p.uses
  comments : p'.comments = p.comments

/-- The second model is the first one with carriage returns after some source lines. -/
structure Model.WithReturns (m m' : Model) : Prop where
  packages : List.Forall₂ Package.WithReturns m.packages m'.packages
  symbols : m'.symbols = m.symbols
  types : m'.types = m.types

namespace CommentTable

/-- **Carriage returns after a line do not change the comment that it is.** -/
theorem wholeLine?_withReturns {line line' : String} (h : Text.WithReturns line line') :
    wholeLine? line' = wholeLine? line := by
  obtain ⟨n, rfl⟩ := h
  have hblank : ∀ c ∈ List.replicate n '\r', Text.isBlank c = true :=
    List.forall_mem_replicate.2 (.inr rfl)
  have hreturn : ∀ c ∈ List.replicate n '\r', (c == '\r') = true :=
    List.forall_mem_replicate.2 (.inr rfl)
  unfold wholeLine?
  rw [String.toList_append, String.toList_ofList, Text.trimEnd_trimStart_append hblank hreturn]

theorem scanLines_withReturns {lines lines' : List String}
    (h : List.Forall₂ Text.WithReturns lines lines') (file : Path) (t : CommentTable) (k : Nat) :
    scanLines file t (lines'.zipIdx k) = scanLines file t (lines.zipIdx k) := by
  induction h generalizing k with
  | nil => rfl
  | cons hline _ ih =>
    unfold scanLines at ih ⊢
    simp only [List.zipIdx_cons, List.foldr_cons, ih, wholeLine?_withReturns hline]

theorem scanFile_withReturns {file file' : SourceFile} (h : file.WithReturns file')
    (t : CommentTable) : t.scanFile file' = t.scanFile file := by
  rw [scanFile, scanFile, h.path, scanLines_withReturns h.lines]

theorem foldl_scanFile_withReturns {files files' : List SourceFile}
    (h : List.Forall₂ SourceFile.WithReturns files files') (t : CommentTable) :
    files'.foldl scanFile t = files.foldl scanFile t := by
  induction h generalizing t with
  | nil => rfl
  | cons hfile _ ih => rw [List.foldl_cons, List.foldl_cons, scanFile_withReturns hfile, ih]

/-- **Carriage returns after source lines do not change the comments of a package.** -/
theorem ofPackage_withReturns {p p' : Package} (h : p.WithReturns p') :
    ofPackage p' = ofPackage p := by
  rw [ofPackage, ofPackage, h.comments, foldl_scanFile_withReturns h.files]

end CommentTable

/-! ## Reports -/

theorem Package.WithReturns.uncommented {p p' : Package} (h : p.WithReturns p') :
    p.uncommented = p'.uncommented := by
  have hfiles : p.files.map (fun file => { file with lines := [] }) =
      p'.files.map fun file => ({ file with lines := [] } : SourceFile) := by
    refine map_eq_map_of_forall₂ h.files ?_
    intro file file' hfile
    rw [hfile.path]
  rw [Package.uncommented, Package.uncommented, hfiles, h.path, h.uses]

namespace Model

variable {m m' : Model}

/-- Without comments and source lines the models are the same. -/
theorem WithReturns.uncommented (h : m.WithReturns m') : m'.uncommented = m.uncommented := by
  have hpackages : m.packages.map Package.uncommented = m'.packages.map Package.uncommented :=
    map_eq_map_of_forall₂ h.packages fun _ _ => Package.WithReturns.uncommented
  rw [Model.uncommented, Model.uncommented, hpackages, h.symbols, h.types]

/-- What a package adds to a report is the same. -/
theorem WithReturns.outcome_eq (h : m.WithReturns m') {p p' : Package} (hp : p.WithReturns p')
    (a : Analyzer) : a.outcome m p = a.outcome m' p' := by
  have hreferences : a.includedReferences m p = a.includedReferences m' p' := by
    unfold Analyzer.includedReferences references referenceMap signatures
    rw [h.symbols, h.types, hp.uses]
  unfold Analyzer.outcome
  rw [hreferences, CommentTable.ofPackage_withReturns hp, hp.files.length_eq]

theorem WithReturns.report_eq (h : m.WithReturns m') (a : Analyzer) : a.report m = a.report m' := by
  have houtcomes : m.packages.map (a.outcome m) = m'.packages.map (a.outcome m') :=
    map_eq_map_of_forall₂ h.packages fun _ _ hp => h.outcome_eq hp a
  rw [Analyzer.report, Analyzer.report, houtcomes]

/-- **Carriage returns after source lines change nothing.**  Every package has the same comments at
every line of every file, and every analysis gives the same report. -/
theorem sameReports_of_withReturns (hm : m.isConsistent = true) (h : m.WithReturns m') :
    List.Forall₂ (fun p p' => ∀ file line,
      (CommentTable.ofPackage p').get? file line = (CommentTable.ofPackage p).get? file line)
      m.packages m'.packages ∧
    ∀ (a : Analyzer) (loader : Loader), a.loader a.specs a.dir = .ok m →
      loader a.specs a.dir = .ok m' →
        ∃ r, a.analyze = .ok r ∧ { a with loader }.analyze = .ok r := by
  constructor
  · refine h.packages.imp ?_
    intro p p' hp file line
    rw [CommentTable.ofPackage_withReturns hp]
  · intro a loader hload hload'
    by_cases hidle : a.isIdle = true
    · exact ⟨.empty a.policy.mode, if_pos hidle, if_pos hidle⟩
    · have hbusy : a.isIdle = false := Bool.eq_false_iff.2 hidle
      have hm' : m'.isConsistent = true := isConsistent_of_uncommented_eq h.uncommented hm
      refine ⟨a.report m, Analyzer.analyze_eq_report hbusy hload hm, ?_⟩
      rw [h.report_eq a]
      exact Analyzer.analyze_eq_report (a := { a with loader }) hbusy hload' hm'

/-- A package with two entries for one file, with `ending` after two source lines.  The first entry
has a line of blanks only, the second one a comment that permits one of two calls. -/
def scannedTwice (ending : String) : Model where
  symbols := [⟨"f", ⟨"lib"⟩, .function {}⟩]
  packages :=
    [{ path := "a"
       files :=
         [⟨⟨"a.go"⟩, [" \t" ++ ending]⟩,
          ⟨⟨"a.go"⟩, ["f()", "  // OK: known " ++ ending, "f()"]⟩]
       uses := [⟨⟨⟨"a.go"⟩, 1, 1⟩, 0⟩, ⟨⟨⟨"a.go"⟩, 3, 1⟩, 0⟩] }]

theorem sameReports_of_withReturns_scannedTwice :
    (scannedTwice "").isConsistent = true ∧
    (scannedTwice "").WithReturns (scannedTwice "\r\r") ∧
    List.Forall₂ (fun p p' => ∀ file line,
      (CommentTable.ofPackage p').get? file line = (CommentTable.ofPackage p).get? file line)
      (scannedTwice "").packages (scannedTwice "\r\r").packages ∧
    ∃ r, (Analyzer.checkOf (scannedTwice "") (.ofList [("func lib.f()", "")])).analyze = .ok r ∧
      (Analyzer.checkOf (scannedTwice "\r\r") (.ofList [("func lib.f()", "")])).analyze = .ok r ∧
      (r.diagnostics.length, r.suppressed) = (1, 1) := by
  have hconsistent : (scannedTwice "").isConsistent = true := by decide
  have hreturns : (scannedTwice "").WithReturns (scannedTwice "\r\r") := by
    have hnone : ∀ line, Text.WithReturns line line := fun line => ⟨0, by simp⟩
    refine ⟨.cons ⟨rfl, .cons ⟨rfl, ?_⟩ (.cons ⟨rfl, ?_⟩ .nil), rfl, rfl⟩ .nil, rfl, rfl⟩
    · exact .cons ⟨2, by decide⟩ .nil
    · exact .cons (hnone _) (.cons ⟨2, by decide⟩ (.cons (hnone _) .nil))
  obtain ⟨htables, hreports⟩ := sameReports_of_withReturns hconsistent hreturns
  obtain ⟨r, hr, hr'⟩ :=
    hreports (.checkOf (scannedTwice "") (.ofList [("func lib.f()", "")]))
      (fun _ _ => .ok (scannedTwice "\r\r")) rfl rfl
  have hcounts : (r.diagnostics.length, r.suppressed) = (1, 1) := by
    cases hr
    decide +kernel
  exact ⟨hconsistent, hreturns, htables, r, hr, hr', hcounts⟩

end Model

end CallPolicy
