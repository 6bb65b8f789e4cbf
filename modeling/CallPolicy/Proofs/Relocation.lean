import CallPolicy.Proofs.Composition
import CallPolicy.Proofs.JsonText
import CallPolicy.Proofs.LineAbove
import CallPolicy.Proofs.ModelCodec
import CallPolicy.Proofs.Spelling
import Mathlib.Data.List.Find

/-!
# Moving a model file

A model file whose paths are all relative says nothing of the directory that it stands in.  Moved to
another directory it gives the same report, with the paths seen from there.

Two things could get in the way.  Positions are ordered by the texts of their files, but these all
begin with the text of the directory, so they are in the order of the relative paths.  Comments are
looked up by components, and there different relative paths may come to mean one file, such as
`a.go` and `./a.go`; but which of them do is the same in every directory.

So the report is put together once, with the relative paths in it and with the comments looked up
from either directory, and then each directory is put in front of its paths.

## Main statements

* `Path.compare_join`, `Path.components_join_eq_iff` — order and meaning of relative paths, seen
  from a directory.
* `Path.parent?_join_name` — the directory of a file in a directory that is plainly written.
* `CommentTable.seenAlike_ofPackage` — the same comments are found from both directories.
* `Analyzer.report_mapPaths`, `Analyzer.reportFrom_eq` — the report before a directory is put in
  front of its paths.
* `Analyzer.exists_relocated` — the reports on a file in two directories.
-/

namespace CallPolicy

/-! ## Paths seen from a directory -/

/-- What two texts begin with makes no difference to their order. -/
theorem compare_append_left (front s t : String) :
    compare (front ++ s) (front ++ t) = compare s t := by
  have hlt : front ++ s < front ++ t ↔ s < t := by
    rw [String.lt_iff, String.lt_iff, String.toList_append, String.toList_append]
    induction front.toList with
    | nil => rfl
    | cons c rest ih => rw [List.cons_append, List.cons_append, List.cons_lt_cons_self, ih]
  have heq : front ++ s = front ++ t ↔ s = t := by simp
  show compareOfLessAndEq _ _ = compareOfLessAndEq _ _
  simp only [compareOfLessAndEq, hlt, heq]

namespace Text

theorem join_concat (sep : Char) {pieces : List (List Char)} (h : pieces ≠ [])
    (piece : List Char) : join sep (pieces ++ [piece]) = join sep pieces ++ sep :: piece := by
  fun_induction join sep pieces with
  | case1 => exact absurd rfl h
  | case2 first => rfl
  | case3 first next pieces ih =>
    rw [List.cons_append, List.cons_append, join, ← List.cons_append, ih (List.cons_ne_nil _ _),
      List.append_assoc]
    rfl

theorem exists_join_concat_eq (sep : Char) (pieces : List (List Char)) (piece : List Char) :
    ∃ front, join sep (pieces ++ [piece]) = front ++ piece := by
  by_cases h : pieces = []
  · exact ⟨[], by rw [h]; rfl⟩
  · exact ⟨join sep pieces ++ [sep], by rw [join_concat sep h]; simp⟩

end Text

namespace Path

variable {base base' dir q r : Path}

theorem rebase_of_relative (hq : q.isAbsolute = false) (base : Path) :
    rebase base q = base.join q :=
  if_neg (Bool.eq_false_iff.1 hq)

/-- **Seen from a directory, relative paths keep their order.** -/
theorem compare_join (base : Path) (hq : q.isAbsolute = false) (hr : r.isAbsolute = false) :
    compare (base.join q).text (base.join r).text = compare q.text r.text := by
  rw [join_of_relative hq, join_of_relative hr, compare_append_left]

/-- **Relative paths that mean one file, seen from a directory, do so from every other one.** -/
theorem components_join_eq_iff (hbase : base.isAbsolute = true) (hbase' : base'.isAbsolute = true)
    (hq : q.isAbsolute = false) (hr : r.isAbsolute = false) :
    (base'.join q).components = (base'.join r).components ↔
      (base.join q).components = (base.join r).components := by
  rw [components_join hbase hq, components_join hbase hr, components_join hbase' hq,
    components_join hbase' hr, List.append_cancel_left_eq, List.append_cancel_left_eq]

/-- The path is absolute, and nothing but single slashes stands between its components. -/
def IsPlain (p : Path) : Prop :=
  ofParts .root p.steps = p

instance (p : Path) : Decidable p.IsPlain :=
  inferInstanceAs (Decidable (ofParts .root p.steps = p))

theorem IsPlain.isAbsolute (h : dir.IsPlain) : dir.isAbsolute = true := by
  rw [← h]
  exact isAbsolute_ofParts _

theorem mem_steps_iff {s : List Char} : s ∈ dir.steps ↔ s ∈ dir.segments ∧ isIdle s = false := by
  simp [steps]

theorem IsPlain.toList_text (h : dir.IsPlain) :
    dir.text.toList = '/' :: Text.join '/' dir.steps := by
  conv_lhs => rw [← h]
  simp [ofParts, Anchor.chars]

/-- Only the root ends with a slash. -/
theorem IsPlain.isOpen_iff (h : dir.IsPlain) : dir.isOpen = true ↔ dir.steps = [] := by
  have hempty : dir.text.isEmpty = false := by
    rw [Bool.eq_false_iff, Ne, String.isEmpty_iff, ← String.toList_eq_nil_iff, h.toList_text]
    exact List.cons_ne_nil _ _
  rw [isOpen, hempty, Bool.false_or, h.toList_text, beq_iff_eq]
  rcases List.eq_nil_or_concat' dir.steps with hnil | ⟨steps, last, hsteps⟩
  · rw [hnil]
    exact iff_of_true rfl rfl
  · rw [hsteps]
    refine iff_of_false ?_ (by simp)
    obtain ⟨front, hfront⟩ := Text.exists_join_concat_eq '/' steps last
    have hmem : last ∈ dir.steps := by
      rw [hsteps]
      exact List.mem_concat_self
    obtain ⟨hlast, hidle⟩ := mem_steps_iff.1 hmem
    obtain ⟨before, c, rfl⟩ : ∃ before c, last = before ++ [c] := by
      refine (List.eq_nil_or_concat' last).resolve_left ?_
      rintro rfl
      cases hidle
    have hslash : c ≠ '/' := by
      rintro rfl
      exact Text.not_mem_of_mem_split hlast List.mem_concat_self
    rw [hfront, ← List.append_assoc, ← List.cons_append, List.getLast?_concat, Option.some_inj]
    exact hslash

/-- In a directory that is plainly written, a name comes after the steps of the directory. -/
theorem IsPlain.join_name {name : String} (h : dir.IsPlain) (hname : isEntryName name = true) :
    dir.join ⟨name⟩ = ofParts .root (dir.steps ++ [name.toList]) := by
  rw [join_of_relative (isAbsolute_of_isEntryName hname), ofParts, Path.mk.injEq,
    ← String.toList_inj, String.toList_append, String.toList_append, h.toList_text]
  by_cases hnil : dir.steps = []
  · rw [if_pos (h.isOpen_iff.2 hnil), hnil]
    simp [Anchor.chars, Text.join]
  · rw [if_neg (mt h.isOpen_iff.1 hnil), Text.join_concat '/' hnil]
    simp [Anchor.chars]

theorem trimIdleEnd_eq_self {ss : List (List Char)} (h : ∀ s ∈ ss, isIdle s = false) :
    trimIdleEnd ss = ss := by
  rcases List.eq_nil_or_concat' ss with rfl | ⟨before, last, rfl⟩
  · rfl
  · have hlast : isIdle last = false := h last List.mem_concat_self
    simp [trimIdleEnd, hlast]

/-- **A file in a directory that is plainly written has this directory.** -/
theorem parent?_join_name {name : String} (hdir : dir.IsPlain) (hname : isEntryName name = true) :
    (dir.join ⟨name⟩).parent? = some dir := by
  obtain ⟨hidle, -, hslash⟩ := isEntryName_iff.1 hname
  have hsegments : (dir.join ⟨name⟩).segments = dir.steps ++ [name.toList] := by
    have hsplit : (dir.join ⟨name⟩).segments =
        Text.split '/' (Text.join '/' (dir.steps ++ [name.toList])) := by
      simp [hdir.join_name hname, segments, ofParts, Anchor.chars, cutAnchor]
    rw [hsplit, Text.split_join (by simp)]
    rw [List.forall_mem_append, List.forall_mem_singleton]
    exact ⟨fun s hs => Text.not_mem_of_mem_split (mem_steps_iff.1 hs).1, hslash⟩
  have hanchor : (dir.join ⟨name⟩).anchor = .root :=
    (text_of_isAbsolute (isAbsolute_join hdir.isAbsolute _)).1
  have htrim : trimIdleEnd dir.steps = dir.steps :=
    trimIdleEnd_eq_self fun s hs => (mem_steps_iff.1 hs).2
  rw [parent?, hsegments, hanchor, List.reverse_append, List.reverse_singleton,
    List.singleton_append, List.dropWhile_cons, if_neg (Bool.eq_false_iff.1 hidle)]
  simp only [List.reverse_reverse, htrim]
  exact congrArg some hdir

end Path

/-! ## Reports seen from a directory -/

/-- The position with its file seen from a directory. -/
def Position.under (base : Path) (p : Position) : Position :=
  { p with file := base.join p.file }

/-- The reference with its file seen from a directory. -/
def Reference.under (base : Path) (r : Reference) : Reference :=
  { r with position := r.position.under base }

/-- The diagnostic with its file seen from a directory. -/
def Diagnostic.under (base : Path) (d : Diagnostic) : Diagnostic :=
  { d with position := d.position.under base }

/-- The outcome with its files seen from a directory. -/
def PackageOutcome.under (base : Path) (o : PackageOutcome) : PackageOutcome :=
  { o with diagnostics := o.diagnostics.map (Diagnostic.under base) }

/-- The report with its files seen from a directory. -/
def Report.under (base : Path) (r : Report) : Report :=
  { r with diagnostics := r.diagnostics.map (Diagnostic.under base) }

/-- Seen from a directory, positions in relative files keep their order. -/
theorem Position.compare_under (base : Path) {p q : Position} (hp : p.file.isAbsolute = false)
    (hq : q.file.isAbsolute = false) : compare (p.under base) (q.under base) = compare p q := by
  show (compare (base.join p.file).text (base.join q.file).text).then _ =
    (compare p.file.text q.file.text).then _
  rw [Path.compare_join base hp hq]
  rfl

theorem Position.le_under (base : Path) {p q : Position} (hp : p.file.isAbsolute = false)
    (hq : q.file.isAbsolute = false) : (p.under base).le (q.under base) = p.le q := by
  rw [le, le, compare_under base hp hq]

theorem Report.verdict_under (base : Path) (r : Report) : (r.under base).verdict = r.verdict := by
  unfold verdict under
  rw [List.isEmpty_map]

/-! ## References -/

/-- The file paths in a package. -/
def Package.paths (p : Package) : List Path :=
  p.files.map SourceFile.path ++
    ((p.uses.map fun use => use.position.file) ++ p.comments.map Comment.file)

/-- The file paths in a model. -/
def Model.paths (m : Model) : List Path :=
  m.packages.flatMap Package.paths

/-- All file paths in the package are relative. -/
structure Package.IsRelative (p : Package) : Prop where
  files : ∀ file ∈ p.files, file.path.isAbsolute = false
  uses : ∀ use ∈ p.uses, use.position.file.isAbsolute = false
  comments : ∀ comment ∈ p.comments, comment.file.isAbsolute = false

theorem Package.isRelative_iff (p : Package) :
    p.IsRelative ↔ ∀ q ∈ p.paths, q.isAbsolute = false := by
  simp only [paths, List.forall_mem_append, List.forall_mem_map]
  exact ⟨fun ⟨hf, hu, hc⟩ => ⟨hf, hu, hc⟩, fun ⟨hf, hu, hc⟩ => ⟨hf, hu, hc⟩⟩

namespace Model

variable {m : Model} {p : Package} {origins : OriginMap}

/-- A reference stands where one of the uses does. -/
theorem exists_use_of_mem_references {r : Reference} (hr : r ∈ m.references origins p) :
    ∃ use ∈ p.uses, use.position = r.position := by
  obtain ⟨use, ⟨before, after, huses, hposition, -⟩, -⟩ := (m.mem_references_iff origins p r).1 hr
  refine ⟨use, ?_, hposition⟩
  rw [huses]
  simp

theorem relative_of_mem_references (hp : p.IsRelative) {r : Reference}
    (hr : r ∈ m.references origins p) : r.position.file.isAbsolute = false := by
  obtain ⟨use, huse, hposition⟩ := exists_use_of_mem_references hr
  rw [← hposition]
  exact hp.uses use huse

/-- **The references of a package, seen from a directory.** -/
theorem references_mapPaths (base : Path) (hp : p.IsRelative) :
    (m.mapPaths (Path.rebase base)).references origins (p.mapPaths (Path.rebase base)) =
      (m.references origins p).map (Reference.under base) := by
  have hbindings : (p.mapPaths (Path.rebase base)).uses.filterMap (fun use =>
        ((m.mapPaths (Path.rebase base)).signatureAt? origins use).map fun signature =>
          (use.position, signature)) =
      (p.uses.filterMap fun use =>
        (m.signatureAt? origins use).map fun signature => (use.position, signature)).map
          fun b => (b.1.under base, b.2) := by
    rw [Package.mapPaths, List.filterMap_map, List.map_filterMap]
    refine List.filterMap_congr ?_
    intro use huse
    rw [Option.map_map, Function.comp_apply]
    -- only the symbol of a use decides its signature
    show (m.signatureAt? origins use).map _ = _
    rw [Path.rebase_of_relative (hp.uses use huse)]
    rfl
  have hrelative : ∀ b ∈ p.uses.filterMap (fun use =>
      (m.signatureAt? origins use).map fun signature => (use.position, signature)),
      b.1.file.isAbsolute = false := by
    intro b hb
    obtain ⟨use, huse, hb⟩ := List.mem_filterMap.1 hb
    obtain ⟨signature, -, rfl⟩ := Option.map_eq_some_iff.1 hb
    exact hp.uses use huse
  rw [references, referenceMap_eq, hbindings, references, referenceMap_eq,
    OrderedMap.entries_ofList_map, List.map_map, List.map_map]
  · rfl
  · exact fun b hb c hc => Position.compare_under base (hrelative b hb) (hrelative c hc)

end Model

/-! ## Comments -/

namespace CommentTable

/-- Seen from two directories, the tables hold the same comments in relative files. -/
def SeenAlike (base base' : Path) (t t' : CommentTable) : Prop :=
  ∀ q : Path, q.isAbsolute = false → ∀ line,
    t'.get? (base'.join q) line = t.get? (base.join q) line

variable {base base' : Path} {t t' : CommentTable}

section

variable (hbase : base.isAbsolute = true) (hbase' : base'.isAbsolute = true)
include hbase hbase'

omit hbase hbase' in
theorem SeenAlike.hasFile_eq (h : SeenAlike base base' t t') {file : Path}
    (hfile : file.isAbsolute = false) :
    t'.hasFile (base'.join file) = t.hasFile (base.join file) := by
  rw [Bool.eq_iff_iff, hasFile_iff, hasFile_iff]
  simp only [h file hfile]

theorem seenAlike_ofComments {comments : List Comment}
    (hcomments : ∀ comment ∈ comments, comment.file.isAbsolute = false) :
    SeenAlike base base'
      (ofComments (comments.map fun c => { c with file := Path.rebase base c.file }))
      (ofComments (comments.map fun c => { c with file := Path.rebase base' c.file })) := by
  induction comments with
  | nil => exact fun q _ line => rfl
  | cons c rest ih =>
    rw [List.forall_mem_cons] at hcomments
    intro q hq line
    rw [List.map_cons, List.map_cons, get?_ofComments_cons, get?_ofComments_cons]
    simp only [Path.rebase_of_relative hcomments.1,
      Path.components_join_eq_iff hbase hbase' hq hcomments.1, ih hcomments.2 q hq]

/-- An entry is for a file from both directories or from neither. -/
theorem isCommentedEntry_rebase {q : Path} (hq : q.isAbsolute = false) {source : SourceFile}
    (hsource : source.path.isAbsolute = false) :
    isCommentedEntry (base'.join q) { source with path := Path.rebase base' source.path } =
      isCommentedEntry (base.join q) { source with path := Path.rebase base source.path } := by
  rw [Bool.eq_iff_iff, isCommentedEntry_iff, isCommentedEntry_iff]
  simp only [Path.rebase_of_relative hsource,
    Path.components_join_eq_iff hbase hbase' hsource hq]
  rfl

/-- **The comments of a package are found from both directories alike.** -/
theorem seenAlike_ofPackage {p : Package} (hp : p.IsRelative) :
    SeenAlike base base' (ofPackage (p.mapPaths (Path.rebase base)))
      (ofPackage (p.mapPaths (Path.rebase base'))) := by
  have hcomments := seenAlike_ofComments hbase hbase' hp.comments
  intro q hq line
  have hfind : p.files.find? (isCommentedEntry (base'.join q) ∘
      fun file => { file with path := Path.rebase base' file.path }) =
      p.files.find? (isCommentedEntry (base.join q) ∘
        fun file => { file with path := Path.rebase base file.path }) :=
    List.find?_congr fun source hsource =>
      isCommentedEntry_rebase hbase hbase' hq (hp.files source hsource)
  rw [get?_ofPackage, get?_ofPackage]
  simp only [Package.mapPaths, hcomments.hasFile_eq hq, hcomments q hq, List.find?_map, hfind,
    Option.bind_map]
  rfl

end

/-- So the same references are permitted. -/
theorem SeenAlike.isPermitted_eq (h : SeenAlike base base' t t') {position : Position}
    (hfile : position.file.isAbsolute = false) :
    Analyzer.isPermitted t' (position.under base') =
      Analyzer.isPermitted t (position.under base) := by
  unfold Analyzer.isPermitted reasonAt? Position.under
  rw [h _ hfile]

end CommentTable

/-! ## Outcomes -/

/-- What a policy makes of references, if those at some positions are permitted. -/
def Policy.outcomeOf (policy : Policy) (permitted : Position → Bool) (references : List Reference)
    (files : Nat) : PackageOutcome :=
  match policy with
  | .listAll => ⟨references.map fun r => ⟨r.position, r.signature⟩, files, 0⟩
  | .check denylist =>
    let found := references.filterMap (Analyzer.forbidden? denylist)
    ⟨found.filter fun d => !permitted d.position, files, found.countP fun d => permitted d.position⟩

namespace Policy

variable {policy : Policy} {permitted permitted' : Position → Bool} {references : List Reference}
  {files : Nat}

/-- What is reported stands where a reference does. -/
theorem exists_mem_of_mem_outcomeOf {d : Diagnostic}
    (hd : d ∈ (policy.outcomeOf permitted references files).diagnostics) :
    ∃ r ∈ references, d.position = r.position := by
  cases policy with
  | listAll =>
    obtain ⟨r, hr, rfl⟩ := List.mem_map.1 hd
    exact ⟨r, hr, rfl⟩
  | check denylist =>
    obtain ⟨r, hr, hd⟩ := List.mem_filterMap.1 (List.mem_filter.1 hd).1
    obtain ⟨message, -, rfl⟩ := Option.map_eq_some_iff.1 hd
    exact ⟨r, hr, rfl⟩

/-- It matters for references only what is permitted. -/
theorem outcomeOf_congr (h : ∀ r ∈ references, permitted' r.position = permitted r.position) :
    policy.outcomeOf permitted' references files = policy.outcomeOf permitted references files := by
  cases policy with
  | listAll => rfl
  | check denylist =>
    have hfound : ∀ d ∈ references.filterMap (Analyzer.forbidden? denylist),
        permitted' d.position = permitted d.position := by
      intro d hd
      obtain ⟨r, hr, hd⟩ := List.mem_filterMap.1 hd
      obtain ⟨message, -, rfl⟩ := Option.map_eq_some_iff.1 hd
      exact h r hr
    unfold outcomeOf
    rw [PackageOutcome.mk.injEq]
    refine ⟨List.filter_congr ?_, rfl, List.countP_congr ?_⟩
    · intro d hd
      rw [hfound d hd]
    · intro d hd
      rw [hfound d hd]

/-- The outcome of references that are seen from a directory. -/
theorem outcomeOf_under (base : Path) :
    policy.outcomeOf permitted (references.map (Reference.under base)) files =
      (policy.outcomeOf (fun position => permitted (position.under base)) references files).under
        base := by
  cases policy with
  | listAll => simp [outcomeOf, PackageOutcome.under, Reference.under, Diagnostic.under]
  | check denylist =>
    have hfound : (references.map (Reference.under base)).filterMap (Analyzer.forbidden? denylist) =
        (references.filterMap (Analyzer.forbidden? denylist)).map (Diagnostic.under base) := by
      rw [List.filterMap_map, List.map_filterMap]
      refine List.filterMap_congr ?_
      intro r _
      rw [Analyzer.forbidden?, Option.map_map]
      rfl
    unfold outcomeOf PackageOutcome.under
    rw [PackageOutcome.mk.injEq, hfound, List.filter_map, List.countP_map]
    exact ⟨rfl, rfl, rfl⟩

end Policy

namespace Analyzer

/-! ## Reports -/

/-- The report that outcomes add up to. -/
def reportOf (mode : Mode) (outcomes : List PackageOutcome) : Report :=
  (outcomes.foldl addOutcome (.empty mode)).sort

theorem mem_diagnostics_reportOf {mode : Mode} {outcomes : List PackageOutcome} {d : Diagnostic}
    (hd : d ∈ (reportOf mode outcomes).diagnostics) : ∃ o ∈ outcomes, d ∈ o.diagnostics := by
  rw [reportOf, foldl_addOutcome, Report.sort, (stableSort_perm _).mem_iff] at hd
  exact List.mem_flatMap.1 hd

/-- Outcomes that are seen from a directory add up to a report that is. -/
theorem reportOf_under (base : Path) {mode : Mode} {outcomes : List PackageOutcome}
    (h : ∀ o ∈ outcomes, ∀ d ∈ o.diagnostics, d.position.file.isAbsolute = false) :
    reportOf mode (outcomes.map (PackageOutcome.under base)) =
      (reportOf mode outcomes).under base := by
  have hsort : stableSort (fun d e => d.position.le e.position)
        ((outcomes.flatMap PackageOutcome.diagnostics).map (Diagnostic.under base)) =
      (stableSort (fun d e => d.position.le e.position)
        (outcomes.flatMap PackageOutcome.diagnostics)).map (Diagnostic.under base) := by
    refine (map_stableSort ?_).symm
    intro d hd e he
    obtain ⟨o, ho, hd⟩ := List.mem_flatMap.1 hd
    obtain ⟨o', ho', he⟩ := List.mem_flatMap.1 he
    exact Position.le_under base (h o ho d hd) (h o' ho' e he)
  rw [List.map_flatMap] at hsort
  unfold reportOf
  rw [foldl_addOutcome, foldl_addOutcome]
  simp [Report.sort, Report.under, Report.empty, PackageOutcome.under, List.flatMap_map, ← hsort,
    Function.comp_def]

/-- What a package adds to a report before a directory is put in front of its paths; the comments
are looked up from that directory. -/
def outcomeFrom (a : Analyzer) (base : Path) (m : Model) (p : Package) : PackageOutcome :=
  a.policy.outcomeOf
    (fun position => isPermitted (.ofPackage (p.mapPaths (Path.rebase base))) (position.under base))
    (m.references a.origins p) p.files.length

/-- The report on a model before a directory is put in front of its paths. -/
def reportFrom (a : Analyzer) (base : Path) (m : Model) : Report :=
  reportOf a.policy.mode (m.packages.map (a.outcomeFrom base m))

variable {a : Analyzer} {m : Model} {p : Package}

/-- What is added stands where a use does. -/
theorem exists_use_of_mem_outcomeFrom {base : Path} {d : Diagnostic}
    (hd : d ∈ (a.outcomeFrom base m p).diagnostics) :
    ∃ use ∈ p.uses, use.position = d.position := by
  obtain ⟨r, hr, hposition⟩ := Policy.exists_mem_of_mem_outcomeOf hd
  rw [hposition]
  exact Model.exists_use_of_mem_references hr

/-- The files of the report are those of uses. -/
theorem file_mem_paths {base : Path} {d : Diagnostic}
    (hd : d ∈ (a.reportFrom base m).diagnostics) : d.position.file ∈ m.paths := by
  obtain ⟨o, ho, hd⟩ := mem_diagnostics_reportOf hd
  obtain ⟨p, hp, rfl⟩ := List.mem_map.1 ho
  obtain ⟨use, huse, hposition⟩ := exists_use_of_mem_outcomeFrom hd
  refine List.mem_flatMap.2 ⟨p, hp, ?_⟩
  rw [← hposition]
  exact List.mem_append_right _ (List.mem_append_left _ (List.mem_map.2 ⟨use, huse, rfl⟩))

theorem outcome_eq_outcomeOf (hexclude : a.exclude = []) (p : Package) :
    a.outcome m p = a.policy.outcomeOf (isPermitted (.ofPackage p)) (m.references a.origins p)
      p.files.length := by
  have hincluded : a.includedReferences m p = m.references a.origins p := by
    simp [includedReferences, isExcluded, hexclude]
  cases hpolicy : a.policy with
  | listAll => simp only [outcome, hpolicy, hincluded, Policy.outcomeOf]
  | check denylist => simp only [outcome, hpolicy, hincluded, Policy.outcomeOf]

/-- What a package with relative paths adds, seen from a directory. -/
theorem outcome_mapPaths (hexclude : a.exclude = []) (base : Path) (hp : p.IsRelative) :
    a.outcome (m.mapPaths (Path.rebase base)) (p.mapPaths (Path.rebase base)) =
      (a.outcomeFrom base m p).under base := by
  rw [outcomeFrom, ← Policy.outcomeOf_under, outcome_eq_outcomeOf hexclude,
    Model.references_mapPaths base hp]
  simp [Package.mapPaths]

/-- **The report on a model whose relative paths are seen from a directory.** -/
theorem report_mapPaths (hexclude : a.exclude = []) (base : Path)
    (hm : ∀ p ∈ m.packages, p.IsRelative) :
    a.report (m.mapPaths (Path.rebase base)) = (a.reportFrom base m).under base := by
  have hrelative : ∀ o ∈ m.packages.map (a.outcomeFrom base m), ∀ d ∈ o.diagnostics,
      d.position.file.isAbsolute = false := by
    rw [List.forall_mem_map]
    intro p hp d hd
    obtain ⟨use, huse, hposition⟩ := exists_use_of_mem_outcomeFrom hd
    rw [← hposition]
    exact (hm p hp).uses use huse
  have houtcomes : (m.mapPaths (Path.rebase base)).packages.map
        (a.outcome (m.mapPaths (Path.rebase base))) =
      (m.packages.map (a.outcomeFrom base m)).map (PackageOutcome.under base) := by
    rw [Model.mapPaths, List.map_map, List.map_map]
    exact List.map_congr_left fun p hp => outcome_mapPaths hexclude base (hm p hp)
  rw [reportFrom, ← reportOf_under base hrelative, report, houtcomes]
  rfl

/-- **That report is the same for all directories.** -/
theorem reportFrom_eq {base base' : Path} (hbase : base.isAbsolute = true)
    (hbase' : base'.isAbsolute = true) (hm : ∀ p ∈ m.packages, p.IsRelative) :
    a.reportFrom base' m = a.reportFrom base m := by
  refine congrArg (reportOf a.policy.mode) (List.map_congr_left ?_)
  intro p hp
  refine Policy.outcomeOf_congr ?_
  intro r hr
  exact (CommentTable.seenAlike_ofPackage hbase hbase' (hm p hp)).isPermitted_eq
    (Model.relative_of_mem_references (hm p hp) hr)

end Analyzer

/-! ## Files in two directories -/

/-- A file in a directory that is plainly written holds a model with the paths seen from there. -/
theorem FileTree.loadModel_join_name {t : FileTree} {dir : Path} {name text : String} {m : Model}
    (hdir : dir.IsPlain) (hname : Path.isEntryName name = true)
    (hread : t.readText (dir.join ⟨name⟩) = .ok text) (hparse : Model.parse? text = some m)
    (hvalid : m.validate = .ok m) :
    t.loadModel (dir.join ⟨name⟩) = .ok (m.mapPaths (Path.rebase dir)) := by
  unfold loadModel
  rw [hread]
  simp only [hparse, hvalid, Path.parent?_join_name hdir hname]
  rfl

/-- The two reports are one, seen from two directories: they say the same at the same places of
files with the given relative paths. -/
structure Report.Relocated (base base' : Path) (paths : List Path) (r r' : Report) : Prop where
  verdict : r'.verdict = r.verdict
  packagesChecked : r'.packagesChecked = r.packagesChecked
  filesChecked : r'.filesChecked = r.filesChecked
  suppressed : r'.suppressed = r.suppressed
  diagnostics : List.Forall₂ (fun d d' : Diagnostic =>
    d'.position.line = d.position.line ∧ d'.position.column = d.position.column ∧
      d'.message = d.message ∧
      ∃ q ∈ paths, d.position.file = base.join q ∧ d'.position.file = base'.join q)
    r.diagnostics r'.diagnostics

/-- One report, seen from two directories. -/
theorem Report.relocated_under (base base' : Path) {paths : List Path} {r : Report}
    (h : ∀ d ∈ r.diagnostics, d.position.file ∈ paths) :
    (r.under base).Relocated base base' paths (r.under base') where
  verdict := by rw [verdict_under, verdict_under]
  packagesChecked := rfl
  filesChecked := rfl
  suppressed := rfl
  diagnostics := by
    refine List.forall₂_map_left_iff.2 (List.forall₂_map_right_iff.2 (List.forall₂_same.2 ?_))
    exact fun d hd => ⟨rfl, rfl, rfl, d.position.file, h d hd, rfl, rfl⟩

namespace Analyzer

/-- **A model file that is moved is reported on alike.**  Let all paths in it be relative, and let
it stand in two directories.  Analyses of the two files with the same policy and origins, and
without exclude patterns, have the same verdict and counts, and they report the same of the same
relative paths, seen from the two directories. -/
theorem exists_relocated {a a' : Analyzer} {t t' : FileTree} {dir dir' : Path}
    {name name' text : String} {m : Model} (hpolicy : a'.policy = a.policy)
    (horigins : a'.origins = a.origins) (hexclude : a.exclude = []) (hexclude' : a'.exclude = [])
    (hdir : dir.IsPlain) (hdir' : dir'.IsPlain) (hname : Path.isEntryName name = true)
    (hname' : Path.isEntryName name' = true) (hread : t.readText (dir.join ⟨name⟩) = .ok text)
    (hread' : t'.readText (dir'.join ⟨name'⟩) = .ok text) (hparse : Model.parse? text = some m)
    (hvalid : m.validate = .ok m) (hpaths : ∀ q ∈ m.paths, q.isAbsolute = false) :
    ∃ r r', (a.onFile t (dir.join ⟨name⟩)).analyze = .ok r ∧
      (a'.onFile t' (dir'.join ⟨name'⟩)).analyze = .ok r' ∧ r.Relocated dir dir' m.paths r' := by
  have hm : ∀ p ∈ m.packages, p.IsRelative := fun p hp =>
    p.isRelative_iff.2 fun q hq => hpaths q (List.mem_flatMap.2 ⟨p, hp, hq⟩)
  have hidle : a'.isIdle = a.isIdle := by rw [isIdle, isIdle, hpolicy]
  cases hbusy : a.isIdle with
  | true =>
    refine ⟨.empty a.policy.mode, .empty a.policy.mode, if_pos hbusy, ?_, rfl, rfl, rfl, rfl, .nil⟩
    rw [← hpolicy]
    exact if_pos (hidle.trans hbusy)
  | false =>
    have hload := FileTree.loadModel_join_name hdir hname hread hparse hvalid
    have hload' := FileTree.loadModel_join_name hdir' hname' hread' hparse hvalid
    have houtcome : ∀ p, a'.outcomeFrom dir' m p = a.outcomeFrom dir' m p := by
      intro p
      rw [outcomeFrom, outcomeFrom, hpolicy, horigins]
    have hreport : a'.reportFrom dir' m = a.reportFrom dir m := by
      rw [← reportFrom_eq hdir.isAbsolute hdir'.isAbsolute hm, reportFrom, reportFrom, hpolicy,
        funext houtcome]
    refine ⟨_, _, analyze_onFile hbusy hload, analyze_onFile (hidle.trans hbusy) hload', ?_⟩
    rw [report_mapPaths hexclude dir hm, report_mapPaths hexclude' dir' hm, hreport]
    exact Report.relocated_under dir dir' fun d hd => file_mem_paths hd

/-- A model with three calls.  One of them is permitted by a comment, the path of which has another
spelling. -/
def spelledCalls : Model where
  packages :=
    [{ path := "p"
       uses := [⟨⟨⟨"./a.go"⟩, 2, 1⟩, 0⟩, ⟨⟨⟨"b//c.go"⟩, 3, 1⟩, 0⟩, ⟨⟨⟨"../b.go"⟩, 2, 1⟩, 0⟩]
       comments := [⟨⟨"a.go"⟩, 1, "// OK: known"⟩] }]
  symbols := [⟨"f", ⟨""⟩, .function {}⟩]

/-- The model as it is written to a file. -/
def spelledText : String :=
  Json.pretty 0 spelledCalls.encode ++ "\n"

theorem parse?_spelledText : Model.parse? spelledText = some spelledCalls := by
  have hreadable : spelledCalls.encode.Readable Json.maxDepth := by
    refine ⟨by decide +kernel, ?_⟩
    unfold Json.HasWords
    decide +kernel
  rw [Model.parse?, spelledText, Json.parse?_pretty hreadable.hasWords, Option.bind_some,
    Model.decode_encode hreadable]

/-- A tree with this text in the root, and in a directory below it under another name. -/
def twoPlaces : FileTree where
  root := .dir
    [("m.callgate.json", .file (some spelledText)),
      ("w", .dir [("x", .dir [("n.callgate.json", .file (some spelledText))])])]

/-- A check that forbids the function. -/
def checkSpelledCalls : Analyzer where
  loader := twoPlaces.loadModels
  dir := ⟨"/"⟩
  specs := []
  policy := .check (.ofList [("func f()", "")])
  origins := .empty
  exclude := []
  jobs := none

theorem exists_relocated_twoPlaces :
    (∀ q ∈ spelledCalls.paths, q.isAbsolute = false) ∧
    ∃ r r',
      (checkSpelledCalls.onFile twoPlaces (Path.join ⟨"/"⟩ ⟨"m.callgate.json"⟩)).analyze = .ok r ∧
      (checkSpelledCalls.onFile twoPlaces (Path.join ⟨"/w/x"⟩ ⟨"n.callgate.json"⟩)).analyze =
        .ok r' ∧
      (r.diagnostics.map fun d => d.position.file.text) = ["/../b.go", "/b//c.go"] ∧
      r.suppressed = 1 ∧ r.Relocated ⟨"/"⟩ ⟨"/w/x"⟩ spelledCalls.paths r' := by
  have hpaths : ∀ q ∈ spelledCalls.paths, q.isAbsolute = false := by decide
  have hroot : Path.IsPlain ⟨"/"⟩ := by decide
  have hname : Path.isEntryName "m.callgate.json" = true := by decide
  have hread : twoPlaces.readText (Path.join ⟨"/"⟩ ⟨"m.callgate.json"⟩) = .ok spelledText := rfl
  have hread' : twoPlaces.readText (Path.join ⟨"/w/x"⟩ ⟨"n.callgate.json"⟩) = .ok spelledText := rfl
  have hvalid : spelledCalls.validate = .ok spelledCalls := rfl
  obtain ⟨r, r', hr, hr', hrelocated⟩ := exists_relocated (a := checkSpelledCalls) rfl rfl rfl rfl
    hroot (by decide) hname (by decide) hread hread' parse?_spelledText hvalid hpaths
  have hload := FileTree.loadModel_join_name hroot hname hread parse?_spelledText hvalid
  obtain rfl := Except.ok.inj (hr.symm.trans (analyze_onFile rfl hload))
  exact ⟨hpaths, _, r', hr, hr', by decide +kernel, by decide +kernel, hrelocated⟩

end Analyzer

end CallPolicy
