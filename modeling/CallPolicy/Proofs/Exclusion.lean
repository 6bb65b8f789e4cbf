import CallPolicy.Proofs.PackageOrder
import CallPolicy.Proofs.Settings
import CallPolicy.Proofs.Spelling

/-!
# Files that are left out

A request names files to leave out by patterns, of its own and from its configuration.  A pattern is
held against the path of a file as it is written, and as it is *seen from* the directory of the
analysis: without the components of the directory, if it begins with them.

References in such files are put aside before anything else is asked about them.  Here that is moved
to the end: the report is the one without any pattern, less what it says about these files.  So all
that counts is which files the patterns match together.

## Main statements

* `Path.components_seenFrom` — a path seen from a directory has lost the directory's components.
* `diagnostics_report_filter` — what is reported is what would be reported, less the files left out.
* `report_congr_of_isExcluded` — a report depends on which files are left out, not on the patterns.
* `exists_filtered_report` — patterns only take away what is said about the files they match.
-/

namespace CallPolicy

/-! ## Paths seen from a directory -/

namespace Path

/-- What is left of the path below the directory, or the whole path if it does not lie there. -/
def seenFrom (p dir : Path) : Path :=
  (p.below? dir).getD p

/-- What is left after a walk, and the components that were walked, are those of the segments. -/
theorem componentsOf_of_walkSegments {cs : List Component} {ss rest : List (List Char)}
    (h : walkSegments cs ss = some rest) :
    componentsOf ss = cs ++ componentsOf rest ∧ rest <:+ ss := by
  fun_induction walkSegments cs ss with
  | case1 ss =>
    cases h
    exact ⟨rfl, List.suffix_rfl⟩
  | case2 => cases h
  | case3 c cs s ss hidle ih =>
    obtain ⟨hcomponents, hsuffix⟩ := ih h
    exact ⟨by rw [componentsOf_cons_of_isIdle hidle, hcomponents], hsuffix.trans (ss.suffix_cons s)⟩
  | case4 cs s ss hidle ih =>
    obtain ⟨hcomponents, hsuffix⟩ := ih h
    refine ⟨?_, hsuffix.trans (ss.suffix_cons s)⟩
    rw [componentsOf_cons (Bool.eq_false_iff.2 hidle), hcomponents]
    rfl
  | case5 => cases h

/-- A walk that fails was along other components. -/
theorem not_isPrefix_of_walkSegments {cs : List Component} {ss : List (List Char)}
    (h : walkSegments cs ss = none) : ¬cs <+: componentsOf ss := by
  fun_induction walkSegments cs ss with
  | case1 => cases h
  | case2 c cs =>
    rw [componentsOf_nil, List.prefix_nil]
    exact List.cons_ne_nil c cs
  | case3 c cs s ss hidle ih =>
    rw [componentsOf_cons_of_isIdle hidle]
    exact ih h
  | case4 cs s ss hidle ih =>
    rw [componentsOf_cons (Bool.eq_false_iff.2 hidle), List.cons_prefix_cons]
    exact fun hprefix => ih h hprefix.2
  | case5 c cs s ss hidle hne =>
    rw [componentsOf_cons (Bool.eq_false_iff.2 hidle), List.cons_prefix_cons]
    exact fun hprefix => hne hprefix.1.symm

theorem head?_trimIdleEnd {ss : List (List Char)} (h : ∀ s ∈ ss.head?, isIdle s = false) :
    ∀ s ∈ (trimIdleEnd ss).head?, isIdle s = false := by
  obtain ⟨idle, -, hss⟩ := exists_eq_trimIdleEnd_append ss
  intro s hs
  refine h s ?_
  rw [hss, List.head?_append, Option.mem_def.1 hs]
  rfl

/-- A path that is put together from segments, the first of which has a meaning, has no anchor. -/
theorem anchor_ofParts_none {ss : List (List Char)} (hslash : ∀ s ∈ ss, '/' ∉ s)
    (hhead : ∀ s ∈ ss.head?, isIdle s = false) : (ofParts .none ss).anchor = .none := by
  cases ss with
  | nil => rfl
  | cons t ts =>
    have htext : (ofParts .none (t :: ts)).text.toList = Text.join '/' (t :: ts) := by
      simp [ofParts, Anchor.chars]
    have hsplit : Text.split '/' (ofParts .none (t :: ts)).text.toList = t :: ts := by
      rw [htext, Text.split_join (List.cons_ne_nil t ts) hslash]
    have ht : isIdle t = false := hhead t rfl
    unfold anchor
    -- every other anchor is an idle first segment
    generalize (ofParts .none (t :: ts)).text.toList = text at hsplit
    fun_cases cutAnchor text with
    | case1 rest =>
      cases hsplit
      cases ht
    | case2 =>
      cases hsplit
      cases ht
    | case3 rest =>
      cases hsplit
      cases ht
    | case4 => rfl

theorem components_ofParts_none {ss : List (List Char)} (hslash : ∀ s ∈ ss, '/' ∉ s)
    (hhead : ∀ s ∈ ss.head?, isIdle s = false) :
    (ofParts .none ss).components = componentsOf ss := by
  have htext : (ofParts .none ss).text.toList = Text.join '/' ss := by simp [ofParts, Anchor.chars]
  rw [components_eq_anchor_append, anchor_ofParts_none hslash hhead, htext]
  cases ss with
  | nil => rfl
  | cons t ts =>
    rw [Text.split_join (List.cons_ne_nil t ts) hslash]
    rfl

/-- What is left below a directory has the components that follow those of the directory. -/
theorem components_of_below? {p dir q : Path} (h : p.below? dir = some q) :
    p.components = dir.components ++ q.components := by
  unfold below? at h
  split at h
  next hanchor =>
    obtain ⟨rest, hwalk, rfl⟩ := Option.map_eq_some_iff.1 h
    obtain ⟨hsegments, hsuffix⟩ := componentsOf_of_walkSegments hwalk
    obtain ⟨idle, hidle, hrest⟩ : ∃ idle, (∀ s ∈ idle, isIdle s = true) ∧
        rest = idle ++ rest.dropWhile isIdle :=
      ⟨rest.takeWhile isIdle, fun s => List.mem_takeWhile_imp, List.takeWhile_append_dropWhile.symm⟩
    have hslash : ∀ s ∈ trimIdleEnd (rest.dropWhile isIdle), '/' ∉ s := by
      intro s hs
      obtain ⟨tail, -, hdropped⟩ := exists_eq_trimIdleEnd_append (rest.dropWhile isIdle)
      refine Text.not_mem_of_mem_split (hsuffix.subset ?_)
      rw [hrest, hdropped]
      exact List.mem_append_right _ (List.mem_append_left _ hs)
    have hhead : ∀ s ∈ (rest.dropWhile isIdle).head?, isIdle s = false := by
      intro s hs
      have hnot := List.head?_dropWhile_not isIdle rest
      rw [Option.mem_def.1 hs] at hnot
      exact hnot
    rw [components_ofParts_none hslash (head?_trimIdleEnd hhead), componentsOf_trimIdleEnd,
      components, components, hanchor, hsegments, List.append_assoc]
    conv_lhs => rw [hrest, componentsOf_append, componentsOf_eq_nil hidle, List.nil_append]
  next => cases h

/-- A path that begins in another way than a directory has none of its components, or the directory
has none at all. -/
theorem components_eq_nil_of_anchor_ne {p dir : Path} (hanchor : dir.anchor ≠ p.anchor)
    (h : dir.components <+: p.components) : dir.components = [] := by
  have hlead := h.filter Component.isLead
  rw [filter_isLead_components, filter_isLead_components] at hlead
  cases hdir : dir.anchor with
  | root => cases hp : p.anchor <;> simp_all [Anchor.components]
  | current => cases hp : p.anchor <;> simp_all [Anchor.components]
  | none =>
    have hnone : dir.components.filter Component.isLead = [] := by
      rw [filter_isLead_components, hdir]
      rfl
    cases hcomponents : dir.components with
    | nil => rfl
    | cons c cs =>
      rw [hcomponents] at hnone h
      rw [components] at h
      cases hp : p.anchor with
      | none => exact absurd (hdir.trans hp.symm) hanchor
      | root =>
        rw [hp] at h
        obtain ⟨rfl, -⟩ := List.cons_prefix_cons.1 h
        cases hnone
      | current =>
        rw [hp] at h
        obtain ⟨rfl, -⟩ := List.cons_prefix_cons.1 h
        cases hnone

/-- What lies nowhere below a directory does not begin with its components. -/
theorem not_isPrefix_of_below? {p dir : Path} (h : p.below? dir = none) :
    dir.components = [] ∨ ¬dir.components <+: p.components := by
  unfold below? at h
  split at h
  next hanchor =>
    right
    rw [components, components, hanchor, List.prefix_append_right_inj]
    exact not_isPrefix_of_walkSegments (Option.map_eq_none_iff.1 h)
  next hanchor =>
    by_cases hprefix : dir.components <+: p.components
    · exact .inl (components_eq_nil_of_anchor_ne hanchor hprefix)
    · exact .inr hprefix

/-- **A path seen from a directory has lost the directory's components,** if it begins with them. -/
theorem components_seenFrom (p dir : Path) :
    (p.seenFrom dir).components =
      if dir.components <+: p.components then p.components.drop dir.components.length
      else p.components := by
  unfold seenFrom
  cases hbelow : p.below? dir with
  | some q =>
    have hcomponents := components_of_below? hbelow
    rw [if_pos (hcomponents ▸ List.prefix_append _ _), hcomponents, List.drop_left]
    rfl
  | none =>
    rcases not_isPrefix_of_below? hbelow with hnil | hnot
    · rw [if_pos (hnil ▸ List.nil_prefix), hnil]
      rfl
    · rw [if_neg hnot]
      rfl

end Path

/-! ## Patterns -/

/-- The patterns that have been read are those of the list. -/
theorem Glob.mem_of_parseAll {patterns : List String} {globs : List Glob}
    (h : Glob.parseAll patterns = .ok globs) (glob : Glob) :
    glob ∈ globs ↔ ∃ pattern ∈ patterns, Glob.parse pattern = .ok glob := by
  induction patterns generalizing globs with
  | nil =>
    cases h
    simp
  | cons pattern rest ih =>
    rw [parseAll] at h
    cases hpattern : Glob.parse pattern with
    | error cause => simp [hpattern] at h
    | ok first =>
      cases hrest : parseAll rest with
      | error e => simp [hpattern, hrest, Except.map] at h
      | ok others =>
        simp only [hpattern, hrest, Except.map, Except.ok.injEq] at h
        subst h
        rw [List.mem_cons, ih hrest, List.exists_mem_cons_iff, hpattern, Except.ok.injEq,
          eq_comm (a := first)]

/-- Patterns that can be read one by one are read. -/
theorem Glob.exists_parseAll_eq_ok {patterns : List String}
    (h : ∀ pattern ∈ patterns, ∃ glob, Glob.parse pattern = .ok glob) :
    ∃ globs, Glob.parseAll patterns = .ok globs := by
  cases hglobs : Glob.parseAll patterns with
  | ok globs => exact ⟨globs, rfl⟩
  | error e =>
    obtain ⟨pattern, hmem, cause, hcause⟩ := (exists_parseAll_eq_error_iff patterns).1 ⟨e, hglobs⟩
    obtain ⟨glob, hglob⟩ := h pattern hmem
    rw [hcause] at hglob
    cases hglob

/-- One of the patterns matches the path as it is written, or as it is seen from the directory. -/
def isMatched (patterns : List String) (dir file : Path) : Bool :=
  patterns.any fun pattern =>
    match Glob.parse pattern with
    | .ok glob => glob.isMatch file.text || glob.isMatch (file.seenFrom dir).text
    | .error _ => false

theorem isMatched_eq_true_iff {patterns : List String} {dir file : Path} :
    isMatched patterns dir file = true ↔
      ∃ glob, (∃ pattern ∈ patterns, Glob.parse pattern = .ok glob) ∧
        (glob.isMatch file.text || glob.isMatch (file.seenFrom dir).text) = true := by
  unfold isMatched
  rw [List.any_eq_true]
  constructor
  · rintro ⟨pattern, hmem, hmatch⟩
    cases hpattern : Glob.parse pattern with
    | error cause => simp [hpattern] at hmatch
    | ok glob =>
      rw [hpattern] at hmatch
      exact ⟨glob, ⟨pattern, hmem, hpattern⟩, hmatch⟩
  · rintro ⟨glob, ⟨pattern, hmem, hpattern⟩, hmatch⟩
    refine ⟨pattern, hmem, ?_⟩
    rw [hpattern]
    exact hmatch

/-- What patterns match depends on which patterns there are, not on their order or number. -/
theorem isMatched_congr {patterns patterns' : List String}
    (h : ∀ pattern, pattern ∈ patterns' ↔ pattern ∈ patterns) (dir file : Path) :
    isMatched patterns' dir file = isMatched patterns dir file := by
  rw [Bool.eq_iff_iff, isMatched_eq_true_iff, isMatched_eq_true_iff]
  simp only [h]

/-! ## Reports without some files -/

/-- What is selected from the kept elements is what is kept of the selected ones. -/
theorem filterMap_filter_eq {α β : Type} {f : α → Option β} {p : α → Bool} {q : β → Bool}
    (h : ∀ x y, f x = some y → q y = p x) (xs : List α) :
    (xs.filter p).filterMap f = (xs.filterMap f).filter q := by
  rw [List.filterMap_filter, List.filter_filterMap]
  refine congrArg (List.filterMap · xs) (funext fun x => ?_)
  cases hx : f x with
  | none => simp
  | some y => simp [Option.filter, h x y hx]

namespace Analyzer

variable {a : Analyzer} {globs : List Glob} {m : Model}

/-- A file is left out if one of the patterns that were read matches it. -/
theorem isExcluded_eq_isMatched {patterns : List String}
    (h : Glob.parseAll patterns = .ok globs) (file : Path) :
    { a with exclude := globs }.isExcluded file = isMatched patterns a.dir file := by
  rw [Bool.eq_iff_iff, isMatched_eq_true_iff, isExcluded, List.any_eq_true]
  simp only [Glob.mem_of_parseAll h]
  rfl

/-- Without patterns no file is left out. -/
theorem isExcluded_of_nil (h : a.exclude = []) (file : Path) : a.isExcluded file = false := by
  rw [isExcluded, h, List.any_nil]

theorem includedReferences_of_nil (h : a.exclude = []) (m : Model) (p : Package) :
    a.includedReferences m p = m.references a.origins p := by
  rw [includedReferences, List.filter_eq_self]
  intro r _
  rw [isExcluded_of_nil h]
  rfl

/-- The references that are looked at are those in files that are not left out. -/
theorem calls_eq_filter (h : a.exclude = []) (globs : List Glob) (m : Model) :
    { a with exclude := globs }.calls m =
      (a.calls m).filter fun c =>
        !{ a with exclude := globs }.isExcluded c.2.position.file := by
  unfold calls
  rw [List.filter_flatMap]
  refine congrArg (m.packages.flatMap ·) (funext fun p => ?_)
  rw [List.filter_map, includedReferences_of_nil h]
  rfl

theorem sortedCalls_eq_filter (h : a.exclude = []) (globs : List Glob) (m : Model) :
    { a with exclude := globs }.sortedCalls m =
      (a.sortedCalls m).filter fun c =>
        !{ a with exclude := globs }.isExcluded c.2.position.file := by
  unfold sortedCalls
  rw [calls_eq_filter h]
  refine stableSort_filter ?_ ?_ _ _
  · exact fun c d e => Position.le_trans _ _ _
  · exact fun c d => Position.le_total _ _

/-- A report is read off the references in the order of positions. -/
theorem diagnostics_report_eq (a : Analyzer) (m : Model) :
    (a.report m).diagnostics = (a.sortedCalls m).filterMap (remark? a.policy) := by
  rw [diagnostics_report, allDiagnostics_eq]
  exact stableSort_filterMap_calls (fun c d h => position_of_remark? h) a m

/-- **What is reported is what would be reported, less the files left out.** -/
theorem diagnostics_report_filter (h : a.exclude = []) (globs : List Glob) (m : Model) :
    ({ a with exclude := globs }.report m).diagnostics =
      (a.report m).diagnostics.filter fun d =>
        !{ a with exclude := globs }.isExcluded d.position.file := by
  rw [diagnostics_report_eq, diagnostics_report_eq, sortedCalls_eq_filter h]
  refine filterMap_filter_eq ?_ _
  intro c d hd
  rw [position_of_remark? hd]

/-- A comment permits a call in a file that is not left out, if it would permit it anyway. -/
theorem permits_iff (h : a.exclude = []) (globs : List Glob) {denylist : Denylist} {p : Package}
    {position : Position} :
    { a with exclude := globs }.Permits denylist m p position ↔
      a.Permits denylist m p position ∧
        { a with exclude := globs }.isExcluded position.file = false := by
  constructor
  · rintro ⟨signature, stored, hforbids, hreason⟩
    exact ⟨⟨signature, stored,
      ⟨hforbids.lastCall, hforbids.listed, isExcluded_of_nil h _⟩, hreason⟩, hforbids.included⟩
  · rintro ⟨⟨signature, stored, hforbids, hreason⟩, hincluded⟩
    exact ⟨signature, stored, ⟨hforbids.lastCall, hforbids.listed, hincluded⟩, hreason⟩

/-- **A report depends on which files are left out, not on the patterns.** -/
theorem report_congr_of_isExcluded {globs globs' : List Glob}
    (h : ∀ file, { a with exclude := globs' }.isExcluded file =
      { a with exclude := globs }.isExcluded file) (m : Model) :
    { a with exclude := globs' }.report m = { a with exclude := globs }.report m := by
  have hreferences : ∀ p, { a with exclude := globs' }.includedReferences m p =
      { a with exclude := globs }.includedReferences m p := by
    intro p
    unfold includedReferences
    simp only [h]
  have houtcome : ∀ p,
      { a with exclude := globs' }.outcome m p = { a with exclude := globs }.outcome m p := by
    intro p
    unfold outcome
    rw [hreferences]
  rw [report, report, funext houtcome]

/-- The report on the model is the full one, which is that of the given analysis, less what it says
about some files. -/
structure Filtered (a : Analyzer) (m : Model) (leftOut : Path → Bool) (full report : Report) :
    Prop where
  /-- The diagnostics are those in other files, in the same order. -/
  diagnostics : report.diagnostics = full.diagnostics.filter fun d => !leftOut d.position.file
  /-- Of the permitted calls, each given by the number of its package and its position, those in
  other files are counted. -/
  suppressed : ∀ denylist, a.policy = .check denylist →
    ∃ permitted : Finset (Fin m.packages.length × Position),
      (∀ i position, (i, position) ∈ permitted ↔
        a.Permits denylist m (m.packages.get i) position) ∧
      full.suppressed = permitted.card ∧
      report.suppressed = (permitted.filter fun call => leftOut call.2.file = false).card
  mode : report.mode = full.mode
  packagesChecked : report.packagesChecked = full.packagesChecked
  filesChecked : report.filesChecked = full.filesChecked

theorem filtered_report (h : a.exclude = []) (globs : List Glob) (m : Model) :
    a.Filtered m { a with exclude := globs }.isExcluded (a.report m)
      ({ a with exclude := globs }.report m) where
  diagnostics := diagnostics_report_filter h globs m
  suppressed := by
    intro denylist hpolicy
    obtain ⟨permitted, hpermitted, hcard⟩ := (exact_of_check (m := m) hpolicy).suppressed
    obtain ⟨kept, hkept, hcard'⟩ :=
      (exact_of_check (a := { a with exclude := globs }) (m := m) hpolicy).suppressed
    refine ⟨permitted, hpermitted, hcard, hcard'.trans (congrArg Finset.card ?_)⟩
    ext ⟨i, position⟩
    rw [Finset.mem_filter, hkept, hpermitted, permits_iff h]
  mode := by rw [mode_report, mode_report]
  packagesChecked := by rw [packagesChecked_report, packagesChecked_report]
  filesChecked := by rw [filesChecked_report, filesChecked_report]

end Analyzer

/-! ## Requests -/

namespace AnalysisRequest

/-- The patterns of a request: its own, and those of its configuration. -/
def patterns (r : AnalysisRequest) : List String :=
  r.exclude ++ r.config.exclude

/-- The request without patterns. -/
def withoutPatterns (r : AnalysisRequest) : AnalysisRequest :=
  { r with exclude := [], config := { r.config with exclude := [] } }

variable {r : AnalysisRequest} {workingDir : Path} {plain : Analyzer}

/-- Patterns that can be read change nothing else in the analysis. -/
theorem build_of_withoutPatterns (h : r.withoutPatterns.build workingDir = .ok plain)
    {globs : List Glob} (hglobs : Glob.parseAll r.patterns = .ok globs) :
    plain.exclude = [] ∧ r.build workingDir = .ok { plain with exclude := globs } := by
  unfold patterns at hglobs
  unfold build at h ⊢
  have hnone : Glob.parseAll (r.withoutPatterns.exclude ++ r.withoutPatterns.config.exclude) =
      .ok [] := rfl
  have hloader : r.withoutPatterns.loader = r.loader := rfl
  have hjobs : r.withoutPatterns.jobs.or r.withoutPatterns.config.jobs = r.jobs.or r.config.jobs :=
    rfl
  rw [hloader, hnone, hjobs] at h
  cases hr : r.loader with
  | none => simp [hr] at h
  | some loader =>
    simp only [hr] at h
    simp only [hglobs]
    split at h
    · cases h
    next hpositive =>
      cases h
      exact ⟨rfl, if_neg hpositive⟩

/-- A request that can be built runs its analysis. -/
theorem run_of_build {a : Analyzer} {report : Report} (hbuild : r.build workingDir = .ok a)
    (hanalyze : a.analyze = .ok report) : r.run workingDir = .ok report := by
  rw [run, hbuild]
  simp only [hanalyze]

/-- **Patterns only take away what is said about the files they match.**  So the report depends on
which patterns there are, and not on where, in what order or how often they are given. -/
theorem exists_filtered_report {m : Model} (hplain : r.withoutPatterns.build workingDir = .ok plain)
    (hpatterns : ∀ pattern ∈ r.patterns, ∃ glob, Glob.parse pattern = .ok glob)
    (hbusy : plain.isIdle = false) (hload : plain.loader plain.specs plain.dir = .ok m)
    (hm : m.isConsistent = true) :
    ∃ full report, r.withoutPatterns.run workingDir = .ok full ∧ r.run workingDir = .ok report ∧
      plain.Filtered m (isMatched r.patterns plain.dir) full report ∧
      (∀ file : Path, (file.seenFrom plain.dir).components =
        if plain.dir.components <+: file.components then
          file.components.drop plain.dir.components.length
        else file.components) ∧
      ∀ r' : AnalysisRequest, r'.withoutPatterns = r.withoutPatterns →
        (∀ pattern, pattern ∈ r'.patterns ↔ pattern ∈ r.patterns) →
        r'.run workingDir = .ok report := by
  obtain ⟨globs, hglobs⟩ := Glob.exists_parseAll_eq_ok hpatterns
  obtain ⟨hnone, hbuild⟩ := build_of_withoutPatterns hplain hglobs
  have hfull : plain.analyze = .ok (plain.report m) := Analyzer.analyze_eq_report hbusy hload hm
  have hreport : ∀ globs, { plain with exclude := globs }.analyze =
      .ok ({ plain with exclude := globs }.report m) :=
    fun _ => Analyzer.analyze_eq_report hbusy hload hm
  have hmatched : { plain with exclude := globs }.isExcluded = isMatched r.patterns plain.dir :=
    funext fun file => Analyzer.isExcluded_eq_isMatched hglobs file
  refine ⟨_, _, run_of_build hplain hfull, run_of_build hbuild (hreport globs), ?_,
    fun file => file.components_seenFrom plain.dir, ?_⟩
  · rw [← hmatched]
    exact Analyzer.filtered_report hnone globs m
  · intro r' hsame hmem
    have hpatterns' : ∀ pattern ∈ r'.patterns, ∃ glob, Glob.parse pattern = .ok glob :=
      fun pattern hpattern => hpatterns pattern ((hmem pattern).1 hpattern)
    obtain ⟨globs', hglobs'⟩ := Glob.exists_parseAll_eq_ok hpatterns'
    obtain ⟨-, hbuild'⟩ := build_of_withoutPatterns (hsame ▸ hplain) hglobs'
    have hfiles : ∀ file, { plain with exclude := globs' }.isExcluded file =
        { plain with exclude := globs }.isExcluded file := by
      intro file
      rw [Analyzer.isExcluded_eq_isMatched hglobs', Analyzer.isExcluded_eq_isMatched hglobs,
        isMatched_congr hmem]
    rw [run_of_build hbuild' (hreport globs'), Analyzer.report_congr_of_isExcluded hfiles]

/-- A call in one file, and two in a generated one, of which a comment permits the second. -/
def generatedCalls : Model where
  symbols := [⟨"f", ⟨"lib"⟩, .function {}⟩]
  packages :=
    [{ path := "a"
       uses := [⟨⟨⟨"/work/a.go"⟩, 2, 1⟩, 0⟩, ⟨⟨⟨"/work/gen//b.go"⟩, 2, 1⟩, 0⟩,
         ⟨⟨⟨"/work/gen//b.go"⟩, 5, 1⟩, 0⟩]
       comments := [⟨⟨"/work/gen//b.go"⟩, 4, "// OK: generated"⟩] }]

/-- A check of these calls with patterns of its own and from a configuration. -/
def checkGenerated (own configured : List String) : AnalysisRequest where
  loader := some fun _ _ => .ok generatedCalls
  denylist := some (.ofList [("func lib.f()", "")])
  exclude := own
  config := { exclude := configured }

theorem exists_filtered_report_generated :
    (checkGenerated ["gen/*"] ["*.pb.go"]).withoutPatterns.build ⟨"/work"⟩ =
        .ok (.checkOf generatedCalls (.ofList [("func lib.f()", "")])) ∧
      (∀ pattern ∈ (checkGenerated ["gen/*"] ["*.pb.go"]).patterns,
        ∃ glob, Glob.parse pattern = .ok glob) ∧
      (Denylist.ofList [("func lib.f()", "")]).isEmpty = false ∧
      generatedCalls.isConsistent = true ∧
      ∃ full report,
        (checkGenerated [] []).run ⟨"/work"⟩ = .ok full ∧
        (checkGenerated ["gen/*"] ["*.pb.go"]).run ⟨"/work"⟩ = .ok report ∧
        (Analyzer.checkOf generatedCalls (.ofList [("func lib.f()", "")])).Filtered generatedCalls
          (isMatched ["gen/*", "*.pb.go"] ⟨"/work"⟩) full report ∧
        (checkGenerated [] ["*.pb.go", "gen/*", "*.pb.go"]).run ⟨"/work"⟩ = .ok report := by
  have hplain : (checkGenerated ["gen/*"] ["*.pb.go"]).withoutPatterns.build ⟨"/work"⟩ =
      .ok (.checkOf generatedCalls (.ofList [("func lib.f()", "")])) := rfl
  have hpatterns : ∀ pattern ∈ (checkGenerated ["gen/*"] ["*.pb.go"]).patterns,
      ∃ glob, Glob.parse pattern = .ok glob := by
    show ∀ pattern ∈ ["gen/*", "*.pb.go"], _
    rw [List.forall_mem_cons, List.forall_mem_singleton]
    exact ⟨⟨_, rfl⟩, ⟨_, rfl⟩⟩
  have hlisted : (Denylist.ofList [("func lib.f()", "")]).isEmpty = false := rfl
  have hconsistent : generatedCalls.isConsistent = true := by decide
  have hsame : ∀ pattern,
      pattern ∈ (checkGenerated [] ["*.pb.go", "gen/*", "*.pb.go"]).patterns ↔
        pattern ∈ (checkGenerated ["gen/*"] ["*.pb.go"]).patterns := by
    intro pattern
    show pattern ∈ ["*.pb.go", "gen/*", "*.pb.go"] ↔ pattern ∈ ["gen/*", "*.pb.go"]
    simp only [List.mem_cons, List.not_mem_nil, or_false]
    tauto
  obtain ⟨full, report, hfull, hreport, hfiltered, -, hother⟩ :=
    exists_filtered_report hplain hpatterns hlisted rfl hconsistent
  exact ⟨hplain, hpatterns, hlisted, hconsistent, full, report, hfull, hreport, hfiltered,
    hother _ rfl hsame⟩

/-- The pattern matches the path as it is seen from the directory, and not as it is written. -/
example : isMatched ["gen/*"] ⟨"/work"⟩ ⟨"/work/gen//b.go"⟩ = true ∧
    isMatched ["gen/*"] ⟨"/elsewhere"⟩ ⟨"/work/gen//b.go"⟩ = false := by
  decide +kernel

end AnalysisRequest

end CallPolicy
