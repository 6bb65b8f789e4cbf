import CallPolicy.Proofs.Discovery

/-!
# Where a search begins

A specifier names a path, and behind it a deep search is asked for by `...`.  The search should
begin at that path, seen from the directory of the search.  What the search does first is to trim
the text: slashes at the end of a deep specifier, and every `./` at its front.  Neither changes the
components of a path, but both can change whether it is absolute: of `/` nothing is left, and what
follows `./` may begin with a slash of its own.  These are the only specifiers that are misread.

## Main statements

* `Path.componentsOf_split_trimMarks` — trimming keeps the components.
* `FileTree.Target.components_root` — the components of where a search begins.
* `FileTree.losesRoot_iff`, `FileTree.gainsRoot_iff` — which specifiers are absolute before trimming
  and not after it, or the other way.
* `FileTree.beginsAsNamed_iff` — a search begins where its specifier says, unless that is misread.
-/

namespace CallPolicy

/-! ## Trimming -/

namespace Path

/-- Slashes at the end may be cut off. -/
theorem componentsOf_split_append_slashes (text : List Char) {slashes : List Char}
    (h : ∀ c ∈ slashes, c = '/') :
    componentsOf (Text.split '/' (text ++ slashes)) = componentsOf (Text.split '/' text) := by
  induction slashes generalizing text with
  | nil => rw [List.append_nil]
  | cons c slashes ih =>
    rw [List.forall_mem_cons] at h
    rw [List.append_cons, ih (text ++ [c]) h.2, h.1, componentsOf_split_append_slash]

/-- Every `./` in front may be cut off. -/
theorem componentsOf_split_trimMarks (bound : Nat) (text : List Char) :
    componentsOf (Text.split '/' (Text.trimMarks '.' ['/'] bound text)) =
      componentsOf (Text.split '/' text) := by
  fun_induction Text.trimMarks '.' ['/'] bound text with
  | case1 => rfl
  | case2 bound text rest hmark ih =>
    rw [ih, Text.after?_eq_some_iff.1 hmark]
    exact (componentsOf_cons_of_isIdle rfl (Text.split '/' rest)).symm
  | case3 => rfl

/-- A text of which every `./` is cut off begins with a slash exactly if one follows them. -/
theorem head?_trimMarks_iff {bound : Nat} {text : List Char} (h : text.length ≤ bound) :
    (Text.trimMarks '.' ['/'] bound text).head? = some '/' ↔
      ∃ k rest, text = (List.replicate k ['.', '/']).flatten ++ '/' :: rest := by
  fun_induction Text.trimMarks '.' ['/'] bound text with
  | case1 text =>
    obtain rfl := List.eq_nil_of_length_eq_zero (Nat.le_zero.1 h)
    simp
  | case2 bound text rest hmark ih =>
    obtain rfl := Text.after?_eq_some_iff.1 hmark
    rw [ih (by simp at h; omega)]
    constructor
    · rintro ⟨k, rest, rfl⟩
      exact ⟨k + 1, rest, by simp [List.replicate_succ]⟩
    · rintro ⟨k, rest', heq⟩
      cases k with
      | zero => simp at heq
      | succ k => exact ⟨k, rest', by simpa [List.replicate_succ] using heq⟩
  | case3 bound text hmark =>
    constructor
    · intro hslash
      obtain ⟨rest, rfl⟩ := List.head?_eq_some_iff.1 hslash
      exact ⟨0, rest, rfl⟩
    · rintro ⟨k, rest, rfl⟩
      cases k with
      | zero => rfl
      | succ k =>
        -- a mark in front would have been found
        have hfound : Text.after? ['.', '/']
            ((List.replicate (k + 1) ['.', '/']).flatten ++ '/' :: rest) =
              some ((List.replicate k ['.', '/']).flatten ++ '/' :: rest) :=
          Text.after?_eq_some_iff.2 (by simp [List.replicate_succ])
        rw [hfound] at hmark
        cases hmark

/-- What is joined to an absolute path means the same, or follows the components of the path. -/
theorem components_join_cases {p q : Path} (hp : p.isAbsolute = true) :
    (p.join q).components = (if q.isAbsolute then [.root] else p.components) ++
      componentsOf (Text.split '/' q.text.toList) := by
  split
  · rename_i hq
    rw [join_of_isAbsolute hq, components_of_isAbsolute hq]
    rfl
  · rename_i hq
    exact components_join hp (Bool.eq_false_iff.2 hq)

end Path

namespace FileTree

/-! ## Specifiers -/

/-- The path that a specifier names: its text without the `...` that asks for a deep search. -/
def namedPath (spec : String) : Path :=
  ⟨String.ofList ((Text.before? "...".toList spec.toList).getD spec.toList)⟩

theorem ofSpec_of_none {spec : String} (h : Text.before? "...".toList spec.toList = none) :
    Target.ofSpec spec =
      ⟨Text.trimMarks '.' ['/'] spec.toList.length spec.toList, false⟩ ∧
      (namedPath spec).text.toList = spec.toList := by
  rw [Target.ofSpec, namedPath, h]
  exact ⟨rfl, String.toList_ofList⟩

theorem ofSpec_of_some {spec : String} {named : List Char}
    (h : Text.before? "...".toList spec.toList = some named) :
    Target.ofSpec spec =
      ⟨Text.trimMarks '.' ['/'] (Text.trimEnd (· == '/') named).length
        (Text.trimEnd (· == '/') named), true⟩ ∧
      (namedPath spec).text.toList = named := by
  rw [Target.ofSpec, namedPath, h]
  exact ⟨rfl, String.toList_ofList⟩

/-- The specifier asks for a deep search. -/
def IsDeep (spec : String) : Prop :=
  ∃ named, spec.toList = named ++ "...".toList

theorem deep_ofSpec_iff {spec : String} : (Target.ofSpec spec).deep = true ↔ IsDeep spec := by
  cases h : Text.before? "...".toList spec.toList with
  | none =>
    have hnot : ¬IsDeep spec := by
      rintro ⟨named, hnamed⟩
      rw [Text.before?_eq_some_iff.2 hnamed] at h
      cases h
    simp only [(ofSpec_of_none h).1, hnot, Bool.false_eq_true]
  | some named =>
    simp only [(ofSpec_of_some h).1, true_iff]
    exact ⟨named, Text.before?_eq_some_iff.1 h⟩

/-- How the path that a specifier names is trimmed. -/
structure Trimmed (spec : String) (front slashes : List Char) : Prop where
  named : (namedPath spec).text.toList = front ++ slashes
  slash : ∀ c ∈ slashes, c = '/'
  /-- Only before `...` are slashes cut off, and then all of them. -/
  shallow : ¬IsDeep spec → slashes = []
  deep : IsDeep spec → ∀ c ∈ front.getLast?, c ≠ '/'
  base : (Target.ofSpec spec).base = Text.trimMarks '.' ['/'] front.length front

theorem exists_trimmed (spec : String) : ∃ front slashes, Trimmed spec front slashes := by
  cases h : Text.before? "...".toList spec.toList with
  | none =>
    obtain ⟨hspec, hnamed⟩ := ofSpec_of_none h
    refine ⟨spec.toList, [], ?_, List.forall_mem_nil _, fun _ => rfl, ?_, ?_⟩
    · rw [hnamed, List.append_nil]
    · intro hdeep
      rw [← deep_ofSpec_iff, hspec] at hdeep
      cases hdeep
    · rw [hspec]
  | some named =>
    obtain ⟨hspec, hnamed⟩ := ofSpec_of_some h
    obtain ⟨slashes, hsplit, hslash, hlast⟩ :=
      Text.trimEnd_eq_iff.1 (rfl : Text.trimEnd (· == '/') named = _)
    refine ⟨Text.trimEnd (· == '/') named, slashes, hnamed.trans hsplit, ?_, ?_, ?_, ?_⟩
    · exact fun c hc => beq_iff_eq.1 (hslash c hc)
    · exact fun hshallow => absurd (deep_ofSpec_iff.1 (by rw [hspec])) hshallow
    · exact fun _ c hc => beq_eq_false_iff_ne.1 (hlast c hc)
    · rw [hspec]

variable {spec : String} {dir : Path}

/-- Trimming keeps the components of what is named. -/
theorem componentsOf_split_base (spec : String) :
    Path.componentsOf (Text.split '/' (Target.ofSpec spec).base) =
      Path.componentsOf (Text.split '/' (namedPath spec).text.toList) := by
  obtain ⟨front, slashes, htrimmed⟩ := exists_trimmed spec
  rw [htrimmed.base, Path.componentsOf_split_trimMarks, htrimmed.named,
    Path.componentsOf_split_append_slashes _ htrimmed.slash]

/-- The components of where a search begins. -/
theorem Target.components_root (hdir : dir.isAbsolute = true) (spec : String) :
    ((Target.ofSpec spec).root dir).components =
      (if (Target.ofSpec spec).base.head? = some '/' then [.root] else dir.components) ++
        Path.componentsOf (Text.split '/' (namedPath spec).text.toList) := by
  rw [← componentsOf_split_base, Target.root]
  split
  · rename_i hhere
    rw [Bool.or_eq_true, decide_eq_true_eq, decide_eq_true_eq] at hhere
    rcases hhere with hbase | hbase <;> rw [hbase] <;> exact (List.append_nil _).symm
  · rw [Path.components_join_cases hdir, String.toList_ofList]
    simp only [Path.isAbsolute, String.toList_ofList, beq_iff_eq]

/-! ## Misread specifiers -/

/-- The specifier asks for a deep search of the root, and its slashes are taken for some at the end
of a path. -/
def LosesRoot (spec : String) : Prop :=
  ∃ slashes, slashes ≠ [] ∧ (∀ c ∈ slashes, c = '/') ∧ spec.toList = slashes ++ "...".toList

/-- The specifier names a relative path, but its leading `./`, once or more, is followed by another
slash, which is taken for the root. -/
def GainsRoot (spec : String) : Prop :=
  ∃ k rest, (namedPath spec).text.toList =
      (List.replicate (k + 1) ['.', '/']).flatten ++ '/' :: rest ∧
    (IsDeep spec → ∃ c ∈ rest, c ≠ '/')

theorem namedPath_of_eq {named : List Char} (h : spec.toList = named ++ "...".toList) :
    (namedPath spec).text.toList = named :=
  (ofSpec_of_some (Text.before?_eq_some_iff.2 h)).2

theorem Trimmed.head?_base_iff {front slashes : List Char} (h : Trimmed spec front slashes) :
    (Target.ofSpec spec).base.head? = some '/' ↔
      ∃ k rest, front = (List.replicate k ['.', '/']).flatten ++ '/' :: rest := by
  rw [h.base, Path.head?_trimMarks_iff (Nat.le_refl _)]

theorem losesRoot_iff :
    LosesRoot spec ↔ (namedPath spec).isAbsolute = true ∧
      (Target.ofSpec spec).base.head? ≠ some '/' := by
  constructor
  · rintro ⟨slashes, hne, hslash, hspec⟩
    obtain ⟨hbase, hnamed⟩ := ofSpec_of_some (Text.before?_eq_some_iff.2 hspec)
    have hcut : Text.trimEnd (· == '/') slashes = [] :=
      Text.trimEnd_eq_nil fun c hc => beq_iff_eq.2 (hslash c hc)
    constructor
    · obtain ⟨c, rest, rfl⟩ := List.exists_cons_of_ne_nil hne
      rw [Path.isAbsolute_iff]
      exact ⟨rest, by rw [hnamed, hslash c List.mem_cons_self]⟩
    · rw [hbase, hcut]
      decide
  · rintro ⟨habs, hhead⟩
    obtain ⟨front, slashes, h⟩ := exists_trimmed spec
    obtain ⟨rest, hrest⟩ := Path.isAbsolute_iff.1 habs
    have hnamed := h.named
    cases front with
    | cons c front =>
      -- the slash at the front stays
      obtain ⟨rfl, -⟩ := List.cons.inj (hrest.symm.trans hnamed)
      exact absurd (h.head?_base_iff.2 ⟨0, front, rfl⟩) hhead
    | nil =>
      rw [List.nil_append] at hnamed
      have hne : slashes ≠ [] := by
        rintro rfl
        cases hrest.symm.trans hnamed
      by_cases hdeep : IsDeep spec
      · obtain ⟨named, hspec⟩ := hdeep
        rw [namedPath_of_eq hspec] at hnamed
        exact ⟨slashes, hne, h.slash, hnamed ▸ hspec⟩
      · exact absurd (h.shallow hdeep) hne

theorem gainsRoot_iff :
    GainsRoot spec ↔ (namedPath spec).isAbsolute = false ∧
      (Target.ofSpec spec).base.head? = some '/' := by
  obtain ⟨front, slashes, h⟩ := exists_trimmed spec
  rw [h.head?_base_iff]
  constructor
  · rintro ⟨k, rest, hnamed, hrest⟩
    constructor
    · rw [Path.isAbsolute, hnamed]
      simp [List.replicate_succ]
    · -- the slash after the marks is none of those that are cut off
      have hsplit : ((List.replicate (k + 1) ['.', '/']).flatten ++ ['/']) ++ rest =
          front ++ slashes := by
        rw [← h.named, hnamed, List.append_assoc, List.singleton_append]
      rcases List.append_eq_append_iff.1 hsplit with ⟨more, hfront, -⟩ | ⟨cut, hmarks, hslashes⟩
      · exact ⟨k + 1, more, by rw [hfront, List.append_assoc, List.singleton_append]⟩
      · by_cases hdeep : IsDeep spec
        · obtain ⟨c, hc, hne⟩ := hrest hdeep
          exact absurd (h.slash c (by rw [hslashes]; exact List.mem_append_right _ hc)) hne
        · rw [h.shallow hdeep] at hslashes
          obtain ⟨rfl, -⟩ := List.append_eq_nil_iff.1 hslashes.symm
          exact ⟨k + 1, [], by rw [← List.append_nil front, ← hmarks]⟩
  · rintro ⟨hrelative, k, rest, hfront⟩
    cases k with
    | zero =>
      have habs : (namedPath spec).isAbsolute = true :=
        Path.isAbsolute_iff.2 ⟨rest ++ slashes, by rw [h.named, hfront]; rfl⟩
      rw [habs] at hrelative
      cases hrelative
    | succ k =>
      refine ⟨k, rest ++ slashes, ?_, ?_⟩
      · rw [h.named, hfront, List.append_assoc, List.cons_append]
      · intro hdeep
        have hlast := h.deep hdeep
        rw [hfront] at hlast
        rcases List.eq_nil_or_concat rest with rfl | ⟨init, c, rfl⟩
        · exact absurd rfl (hlast '/' (by simp))
        · refine ⟨c, by simp, hlast c ?_⟩
          rw [List.concat_eq_append, ← List.cons_append, ← List.append_assoc, List.getLast?_concat]
          rfl

/-- A search begins where the path that is named leads to exactly if the path is absolute before and
after trimming, or neither; from the root it always does. -/
theorem components_root_eq_iff (hdir : dir.isAbsolute = true) :
    ((Target.ofSpec spec).root dir).components = (dir.join (namedPath spec)).components ↔
      dir.components = [.root] ∨ ¬(LosesRoot spec ∨ GainsRoot spec) := by
  rw [Target.components_root hdir, Path.components_join_cases hdir, List.append_cancel_right_eq,
    losesRoot_iff, gainsRoot_iff]
  by_cases hbase : (Target.ofSpec spec).base.head? = some '/' <;>
    cases hnamed : (namedPath spec).isAbsolute <;> simp [hbase, eq_comm]

/-! ## What is found -/

variable {t : FileTree}

/-- All that is found is where the search begins, or below it. -/
theorem isPrefix_of_mem_discover {paths : List Path} (hnames : t.root.isWellNamed = true)
    (hdir : dir.isAbsolute = true) (h : t.discover spec dir = .ok paths) :
    ∀ p ∈ paths, ((Target.ofSpec spec).root dir).components <+: p.components := by
  have hboth : ∀ p ∈ paths, p.isAbsolute = true ∧
      ((Target.ofSpec spec).root dir).components <+: p.components := by
    refine forall_mem_discover ?_ hnames
      ⟨Target.isAbsolute_root _ hdir, List.prefix_refl _⟩ h
    rintro here name ⟨habs, hbelow⟩ hname
    refine ⟨Path.isAbsolute_join habs _, ?_⟩
    rw [Path.components_join_entry (Path.text_ne_of_isAbsolute habs) hname]
    exact hbelow.trans (List.prefix_append _ _)
  exact fun p hp => (hboth p hp).2

/-- The search begins at the path that the specifier names, seen from the directory `dir`. -/
structure BeginsAsNamed (t : FileTree) (spec : String) (dir : Path) : Prop where
  root : ((Target.ofSpec spec).root dir).components = (dir.join (namedPath spec)).components
  /-- Nothing is found elsewhere. -/
  found : ∀ paths, t.discover spec dir = .ok paths →
    ∀ p ∈ paths, (dir.join (namedPath spec)).components <+: p.components
  /-- A relative path leads below the directory. -/
  relative : (namedPath spec).isAbsolute = false → ∀ paths, t.discover spec dir = .ok paths →
    ∀ p ∈ paths, dir.components <+: p.components
  /-- An absolute path is honoured. -/
  absolute : (namedPath spec).isAbsolute = true →
    ((Target.ofSpec spec).root dir).components = (namedPath spec).components

theorem beginsAsNamed_of_components_eq (hnames : t.root.isWellNamed = true)
    (hdir : dir.isAbsolute = true)
    (hroot : ((Target.ofSpec spec).root dir).components =
      (dir.join (namedPath spec)).components) : t.BeginsAsNamed spec dir where
  root := hroot
  found paths h := hroot ▸ isPrefix_of_mem_discover hnames hdir h
  relative hrelative paths h p hp := by
    have hbelow : dir.components <+: ((Target.ofSpec spec).root dir).components := by
      rw [hroot, Path.components_join hdir hrelative]
      exact List.prefix_append _ _
    exact hbelow.trans (isPrefix_of_mem_discover hnames hdir h p hp)
  absolute habs := by rw [hroot, Path.join_of_isAbsolute habs]

/-- **A search begins at the path that its specifier names, unless the specifier is misread:** one
that asks for the whole tree begins at the directory instead, and one with a slash after `./` begins
at the root. -/
theorem beginsAsNamed_iff (hnames : t.root.isWellNamed = true) (hdir : dir.isAbsolute = true) :
    (t.BeginsAsNamed spec dir ↔
      dir.components = [.root] ∨ ¬(LosesRoot spec ∨ GainsRoot spec)) ∧
    (LosesRoot spec → ((Target.ofSpec spec).root dir).components = dir.components) ∧
    (GainsRoot spec → ((Target.ofSpec spec).root dir).components =
      ((⟨"/"⟩ : Path).join (namedPath spec)).components) := by
  refine ⟨?_, ?_, ?_⟩
  · rw [← components_root_eq_iff hdir]
    exact ⟨BeginsAsNamed.root, beginsAsNamed_of_components_eq hnames hdir⟩
  · intro hloses
    have hhead := (losesRoot_iff.1 hloses).2
    obtain ⟨slashes, -, hslash, hspec⟩ := hloses
    have hnone : Path.componentsOf (Text.split '/' slashes) = [] :=
      Path.componentsOf_split_append_slashes [] hslash
    rw [Target.components_root hdir, if_neg hhead, namedPath_of_eq hspec, hnone, List.append_nil]
  · intro hgains
    obtain ⟨hrelative, hhead⟩ := gainsRoot_iff.1 hgains
    rw [Target.components_root hdir, if_pos hhead, Path.components_join rfl hrelative]
    rfl

/-- A tree with a model file at its root and one in a directory. -/
def twoModels : FileTree where
  root := .dir
    [("a", .dir [("y.callgate.json", .file (some "\x7b\x7d"))]),
      ("x.callgate.json", .file (some "\x7b\x7d"))]

theorem beginsAsNamed_iff_twoModels :
    twoModels.root.isWellNamed = true ∧ (⟨"/a"⟩ : Path).isAbsolute = true ∧
      twoModels.BeginsAsNamed "././../a//..." ⟨"/a"⟩ ∧
      ¬twoModels.BeginsAsNamed "/..." ⟨"/a"⟩ ∧ ¬twoModels.BeginsAsNamed ".//" ⟨"/a"⟩ := by
  have hnames : twoModels.root.isWellNamed = true := by decide
  have hdir : (⟨"/a"⟩ : Path).isAbsolute = true := by decide
  refine ⟨hnames, hdir, ?_, ?_, ?_⟩
  · refine (beginsAsNamed_iff hnames hdir).1.2 (.inr ?_)
    rw [losesRoot_iff, gainsRoot_iff]
    decide
  · rw [(beginsAsNamed_iff hnames hdir).1, losesRoot_iff, gainsRoot_iff]
    decide
  · rw [(beginsAsNamed_iff hnames hdir).1, losesRoot_iff, gainsRoot_iff]
    decide

/-- A deep search of the root stays in the directory, and a relative specifier leads out of it. -/
theorem discover_astray :
    (((Target.ofSpec "/...").root ⟨"/a"⟩).components ≠
        ((⟨"/a"⟩ : Path).join (namedPath "/...")).components ∧
      (twoModels.discover "/..." ⟨"/a"⟩).toOption = some [⟨"/a/y.callgate.json"⟩]) ∧
    (((Target.ofSpec ".//").root ⟨"/a"⟩).components ≠
        ((⟨"/a"⟩ : Path).join (namedPath ".//")).components ∧
      (namedPath ".//").isAbsolute = false ∧
      (twoModels.discover ".//" ⟨"/a"⟩).toOption = some [⟨"/x.callgate.json"⟩] ∧
      ¬(⟨"/a"⟩ : Path).components <+: (⟨"/x.callgate.json"⟩ : Path).components) := by
  decide +kernel

end FileTree

end CallPolicy
