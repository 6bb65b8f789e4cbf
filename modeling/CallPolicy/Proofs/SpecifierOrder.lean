import CallPolicy.Proofs.Spelling
import CallPolicy.Proofs.Validation

/-!
# The order of specifiers

Specifiers are searched for one after the other, and a file that several of them name is kept in the
spelling that comes first.  So the order of the specifiers decides how the path of a file is
written, and nothing else: the files are loaded in the order of their components, each is read and
rebased according to its components, and the models are merged in the same way.  Repeated specifiers
find nothing new.

## Main statements

* `Model.Alike.merge` — merging looks at no path.
* `FileTree.FirstSpellings.forall₂` — sets of files with the same members agree file by file.
* `FileTree.exists_alike_of_loadModel` — files that are spelled differently hold models that are
  alike.
* `FileTree.loadModels_alike` — specifiers in another order, or repeated, load the same model.
-/

namespace CallPolicy

/-! ## Models that differ in the spelling of paths -/

/-- The files have one path, as it may be spelled, and the same lines. -/
def SourceFile.Alike (f g : SourceFile) : Prop :=
  f.path.components = g.path.components ∧ f.lines = g.lines

/-- The occurrences are of one symbol at one position, as its file may be spelled. -/
def Occurrence.Alike (u v : Occurrence) : Prop :=
  u.position.alike v.position = true ∧ u.symbol = v.symbol

/-- The comments stand in one line of one file, as it may be spelled, and have the same text. -/
def Comment.Alike (c d : Comment) : Prop :=
  c.file.components = d.file.components ∧ c.line = d.line ∧ c.text = d.text

/-- The packages agree in everything but the spelling of paths. -/
structure Package.Alike (p q : Package) : Prop where
  path : p.path = q.path
  files : List.Forall₂ SourceFile.Alike p.files q.files
  uses : List.Forall₂ Occurrence.Alike p.uses q.uses
  comments : List.Forall₂ Comment.Alike p.comments q.comments

/-- The models agree in everything but the spelling of paths. -/
structure Model.Alike (m n : Model) : Prop where
  packages : List.Forall₂ Package.Alike m.packages n.packages
  symbols : m.symbols = n.symbols
  types : m.types = n.types

theorem forall₂_map_of_forall {α β : Type} {R : β → β → Prop} {f g : α → β}
    (h : ∀ x, R (f x) (g x)) (xs : List α) : List.Forall₂ R (xs.map f) (xs.map g) := by
  rw [List.forall₂_map_left_iff, List.forall₂_map_right_iff, List.forall₂_same]
  exact fun x _ => h x

theorem Position.alike_iff {p q : Position} :
    p.alike q = true ↔
      p.file.components = q.file.components ∧ p.line = q.line ∧ p.column = q.column := by
  simp [alike, and_assoc]

theorem Package.alike_mapPaths {f g : Path → Path}
    (h : ∀ path, (f path).components = (g path).components) (p : Package) :
    (p.mapPaths f).Alike (p.mapPaths g) where
  path := rfl
  files := forall₂_map_of_forall (fun file => ⟨h file.path, rfl⟩) p.files
  uses := by
    refine forall₂_map_of_forall ?_ p.uses
    intro use
    exact ⟨Position.alike_iff.2 ⟨h use.position.file, rfl, rfl⟩, rfl⟩
  comments := forall₂_map_of_forall (fun comment => ⟨h comment.file, rfl, rfl⟩) p.comments

theorem Package.Alike.shiftSymbols {p q : Package} (h : p.Alike q) (k : Nat) :
    (p.shiftSymbols k).Alike (q.shiftSymbols k) where
  path := h.path
  files := h.files
  uses := by
    show List.Forall₂ Occurrence.Alike (p.uses.map _) (q.uses.map _)
    rw [List.forall₂_map_left_iff, List.forall₂_map_right_iff]
    refine h.uses.imp ?_
    intro u v huv
    exact ⟨huv.1, congrArg (· + k) huv.2⟩
  comments := h.comments

namespace Model

theorem Alike.refl (m : Model) : m.Alike m where
  packages := by
    rw [List.forall₂_same]
    intro p _
    refine ⟨rfl, ?_, ?_, ?_⟩ <;> rw [List.forall₂_same] <;> intro x _
    · exact ⟨rfl, rfl⟩
    · exact ⟨Position.alike_iff.2 ⟨rfl, rfl, rfl⟩, rfl⟩
    · exact ⟨rfl, rfl, rfl⟩
  symbols := rfl
  types := rfl

/-- Paths may be changed in two ways that agree in their components. -/
theorem alike_mapPaths {f g : Path → Path}
    (h : ∀ path, (f path).components = (g path).components) (m : Model) :
    (m.mapPaths f).Alike (m.mapPaths g) where
  packages := forall₂_map_of_forall (fun p => Package.alike_mapPaths h p) m.packages
  symbols := rfl
  types := rfl

/-- **Merging looks at no path:** models that are alike are merged into models that are alike. -/
theorem Alike.merge {a a' b b' : Model} (ha : a.Alike a') (hb : b.Alike b') :
    (a.merge b).Alike (a'.merge b') where
  packages := by
    refine List.rel_append ha.packages ?_
    rw [List.forall₂_map_left_iff, List.forall₂_map_right_iff, ha.symbols]
    exact hb.packages.imp fun p q hpq => hpq.shiftSymbols _
  symbols := by rw [Model.merge, Model.merge, ha.symbols, ha.types, hb.symbols]
  types := by rw [Model.merge, Model.merge, ha.types, hb.types]

end Model

namespace FileTree

variable {t : FileTree} {dir : Path} {specs specs' : List String}

/-! ## Files in their first spellings -/

theorem FirstSpellings.mem_map_components_iff {paths files : List Path}
    (h : FirstSpellings paths files) (key : List Path.Component) :
    key ∈ files.map Path.components ↔ key ∈ paths.map Path.components := by
  rw [List.mem_map, List.mem_map]
  constructor
  · rintro ⟨file, hfile, rfl⟩
    exact ⟨file, h.mem_paths hfile, rfl⟩
  · rintro ⟨p, hp, rfl⟩
    exact h.exists_spelling hp

/-- **Sets of files with the same members agree file by file,** up to the spelling of paths. -/
theorem FirstSpellings.forall₂ {paths paths' files files' : List Path}
    (h : FirstSpellings paths files) (h' : FirstSpellings paths' files')
    (hpaths : ∀ p, p ∈ paths ↔ p ∈ paths') :
    List.Forall₂ (fun p q => p.components = q.components) files files' := by
  have hsorted : ∀ {paths files : List Path}, FirstSpellings paths files →
      (files.map Path.components).Pairwise fun a b => compare a b = .lt :=
    fun h => List.pairwise_map.2 h.sorted
  have hkeys : files.map Path.components = files'.map Path.components := by
    refine OrderedMap.eq_of_pairwise_lt (hsorted h) (hsorted h') ?_
    intro key
    rw [h.mem_map_components_iff, h'.mem_map_components_iff, List.mem_map, List.mem_map]
    simp only [hpaths]
  rw [← List.forall₂_eq_eq_eq, List.forall₂_map_left_iff, List.forall₂_map_right_iff] at hkeys
  exact hkeys

/-! ## Loading -/

theorem readText_congr {p q : Path} (hp : p.IsFilePath) (hq : q.IsFilePath)
    (h : p.components = q.components) : t.readText p = t.readText q := by
  rw [readText, readText, lookup_congr hp hq h]

/-- A model seen from the directory of its file is the same, however the file is spelled. -/
theorem alike_rebased {p q : Path} (hp : p.isAbsolute = true) (hq : q.isAbsolute = true)
    (h : p.components = q.components) (m : Model) :
    (match p.parent? with
      | some base => m.mapPaths (Path.rebase base)
      | none => m).Alike
    (match q.parent? with
      | some base => m.mapPaths (Path.rebase base)
      | none => m) := by
  rcases Path.components_parent? hp with ⟨hroot, hnone⟩ | ⟨base, hbase, habs, hne, hcomponents⟩
  · rcases Path.components_parent? hq with ⟨-, hnone'⟩ | ⟨-, -, -, hne, -⟩
    · rw [hnone, hnone']
      exact .refl m
    · exact absurd (h.symm.trans hroot) hne
  · rcases Path.components_parent? hq with ⟨hroot, -⟩ | ⟨base', hbase', habs', -, hcomponents'⟩
    · exact absurd (h.trans hroot) hne
    · rw [hbase, hbase']
      refine Model.alike_mapPaths (Path.components_rebase habs habs' ?_) m
      rw [hcomponents, hcomponents', h]

/-- **Files that are spelled differently hold models that are alike.** -/
theorem exists_alike_of_loadModel {p q : Path} {m : Model} (hp : p.IsFilePath) (hq : q.IsFilePath)
    (h : p.components = q.components) (hload : t.loadModel p = .ok m) :
    ∃ m', t.loadModel q = .ok m' ∧ m.Alike m' := by
  unfold loadModel at hload ⊢
  rw [readText_congr hp hq h] at hload
  cases htext : t.readText q with
  | error cause => simp [htext] at hload
  | ok text =>
    cases hparse : Model.parse? text with
    | none => simp [htext, hparse] at hload
    | some model =>
      cases hvalid : model.validate with
      | error e => simp [htext, hparse, hvalid, Except.map] at hload
      | ok model' =>
        simp only [htext, hparse, hvalid, Except.map, Except.ok.injEq] at hload ⊢
        refine ⟨_, rfl, ?_⟩
        rw [← hload]
        exact alike_rebased hp.absolute hq.absolute h model'

/-- Files that are spelled differently are merged into models that are alike. -/
theorem exists_alike_of_mergeFiles {files files' : List Path} {a a' m : Model}
    (hfiles : List.Forall₂ (fun p q => p.components = q.components) files files')
    (hpaths : ∀ p ∈ files, p.IsFilePath) (hpaths' : ∀ p ∈ files', p.IsFilePath)
    (ha : a.Alike a') (h : t.mergeFiles a files = .ok m) :
    ∃ m', t.mergeFiles a' files' = .ok m' ∧ m.Alike m' := by
  induction hfiles generalizing a a' with
  | nil =>
    cases h
    exact ⟨a', rfl, ha⟩
  | @cons p q files files' hpq _ ih =>
    rw [List.forall_mem_cons] at hpaths hpaths'
    rw [mergeFiles] at h ⊢
    cases hload : t.loadModel p with
    | error e => simp [hload] at h
    | ok next =>
      obtain ⟨next', hload', hnext⟩ := exists_alike_of_loadModel hpaths.1 hpaths'.1 hpq hload
      rw [hload] at h
      rw [hload']
      exact ih hpaths.2 hpaths'.2 (ha.merge hnext) h

/-! ## Searching -/

theorem mem_effectiveSpecs_iff (h : ∀ spec, spec ∈ specs ↔ spec ∈ specs') (spec : String) :
    spec ∈ effectiveSpecs specs ↔ spec ∈ effectiveSpecs specs' := by
  have hempty : specs.isEmpty = specs'.isEmpty := by
    rw [Bool.eq_iff_iff, List.isEmpty_iff, List.isEmpty_iff, List.eq_nil_iff_forall_not_mem,
      List.eq_nil_iff_forall_not_mem]
    simp only [h]
  unfold effectiveSpecs
  rw [hempty]
  split
  · rfl
  · exact h spec

/-- Specifiers that each name files name them together. -/
theorem exists_forall₂_discover
    (h : ∀ spec ∈ specs, ∃ paths, t.discover spec dir = .ok paths) :
    ∃ found, List.Forall₂ (fun spec paths => t.discover spec dir = .ok paths) specs found := by
  induction specs with
  | nil => exact ⟨[], .nil⟩
  | cons spec specs ih =>
    rw [List.forall_mem_cons] at h
    obtain ⟨⟨paths, hpaths⟩, hrest⟩ := h
    obtain ⟨found, hfound⟩ := ih hrest
    exact ⟨paths :: found, .cons hpaths hfound⟩

/-- A path is found exactly if one of the specifiers names it. -/
theorem mem_flatten_iff {found : List (List Path)}
    (h : List.Forall₂ (fun spec paths => t.discover spec dir = .ok paths) specs found) (p : Path) :
    p ∈ found.flatten ↔ ∃ spec ∈ specs, ∃ paths, t.discover spec dir = .ok paths ∧ p ∈ paths := by
  constructor
  · exact exists_discover_of_mem h
  · rintro ⟨spec, hspec, paths, hpaths, hp⟩
    obtain ⟨paths', hpaths', hfound⟩ := exists_mem_of_forall₂ h.flip hspec
    obtain rfl : paths = paths' := Except.ok.inj (hpaths.symm.trans hfound)
    exact List.mem_flatten.2 ⟨paths, hpaths', hp⟩

/-- What some specifiers load, the same ones in any other order load too. -/
theorem exists_alike_of_loadModels {m : Model} (hdir : dir.isAbsolute = true)
    (hspecs : ∀ spec, spec ∈ specs ↔ spec ∈ specs') (h : t.loadModels specs dir = .ok m) :
    ∃ m', t.loadModels specs' dir = .ok m' ∧ m.Alike m' := by
  have hsame := mem_effectiveSpecs_iff hspecs
  unfold loadModels at h
  cases hcollect : t.collect dir (effectiveSpecs specs) .empty with
  | error e => simp [hcollect] at h
  | ok files =>
    rw [hcollect] at h
    obtain ⟨found, hfound, rfl⟩ := exists_of_collect hcollect
    obtain ⟨found', hfound'⟩ : ∃ found', List.Forall₂
        (fun spec paths => t.discover spec dir = .ok paths) (effectiveSpecs specs') found' := by
      refine exists_forall₂_discover ?_
      intro spec hspec
      obtain ⟨paths, -, hpaths⟩ := exists_mem_of_forall₂ hfound.flip ((hsame spec).2 hspec)
      exact ⟨paths, hpaths⟩
    have hpaths : ∀ p, p ∈ found.flatten ↔ p ∈ found'.flatten := by
      intro p
      rw [mem_flatten_iff hfound, mem_flatten_iff hfound']
      simp only [hsame]
    have hended : ∀ p ∈ found.flatten, p.IsFilePath := by
      intro p hp
      obtain ⟨spec, -, paths, hdiscover, hmem⟩ := exists_discover_of_mem hfound hp
      exact isFilePath_of_mem_discover hdir hdiscover p hmem
    have hspelled := firstSpellings_values found.flatten
    have hspelled' := firstSpellings_values found'.flatten
    rw [loadModels, collect_of_forall₂ _ hfound']
    refine exists_alike_of_mergeFiles (hspelled.forall₂ hspelled' hpaths) ?_ ?_ (.refl _) h
    · exact fun p hp => hended p (hspelled.mem_paths hp)
    · exact fun p hp => hended p ((hpaths p).2 (hspelled'.mem_paths hp))

/-- **Specifiers in another order, or repeated, load the same model,** up to the spelling of
paths. -/
theorem loadModels_alike (t : FileTree) (hdir : dir.isAbsolute = true)
    (hspecs : ∀ spec, spec ∈ specs ↔ spec ∈ specs') :
    ((∃ m, t.loadModels specs dir = .ok m) ↔ ∃ m', t.loadModels specs' dir = .ok m') ∧
      ∀ m m', t.loadModels specs dir = .ok m → t.loadModels specs' dir = .ok m' → m.Alike m' := by
  refine ⟨⟨?_, ?_⟩, ?_⟩
  · rintro ⟨m, hm⟩
    obtain ⟨m', hm', -⟩ := exists_alike_of_loadModels hdir hspecs hm
    exact ⟨m', hm'⟩
  · rintro ⟨m', hm'⟩
    obtain ⟨m, hm, -⟩ := exists_alike_of_loadModels hdir (fun spec => (hspecs spec).symm) hm'
    exact ⟨m, hm⟩
  · intro m m' hm hm'
    obtain ⟨m₁, hm₁, halike⟩ := exists_alike_of_loadModels hdir hspecs hm
    obtain rfl : m₁ = m' := Except.ok.inj (hm₁.symm.trans hm')
    exact halike

/-- A tree with one model file, in which one call stands in a file beside it. -/
def callBeside : FileTree where
  root := .dir
    [("a", .dir [("sub", .dir
      [("x.callgate.json", .file (some ("\x7b\"packages\":[\x7b\"path\":\"p\",\"uses\":[" ++
        "\x7b\"file\":\"f.go\",\"line\":2,\"column\":1,\"symbol\":0\x7d]\x7d]," ++
        "\"symbols\":[\x7b\"name\":\"f\",\"kind\":\"variable\"\x7d]\x7d")))])])]

/-- The files with occurrences in a loaded model, as they are spelled. -/
def usedFiles (loaded : Except ResolveError Model) : Option (List String) :=
  loaded.toOption.map fun m =>
    m.packages.flatMap fun p => p.uses.map fun use => use.position.file.text

-- the order of the specifiers does show in the spelling of paths
theorem loadModels_alike_callBeside :
    (⟨"/"⟩ : Path).isAbsolute = true ∧
      (∀ spec, spec ∈ ["a//sub", "./a/..."] ↔ spec ∈ ["./a/...", "a//sub", "./a/..."]) ∧
      usedFiles (callBeside.loadModels ["a//sub", "./a/..."] ⟨"/"⟩) = some ["/a//sub/f.go"] ∧
      usedFiles (callBeside.loadModels ["./a/...", "a//sub", "./a/..."] ⟨"/"⟩) =
        some ["/a/sub/f.go"] ∧
      ∃ m m', callBeside.loadModels ["a//sub", "./a/..."] ⟨"/"⟩ = .ok m ∧
        callBeside.loadModels ["./a/...", "a//sub", "./a/..."] ⟨"/"⟩ = .ok m' ∧ m.Alike m' := by
  have hdir : (⟨"/"⟩ : Path).isAbsolute = true := by decide +kernel
  have hspecs : ∀ spec,
      spec ∈ ["a//sub", "./a/..."] ↔ spec ∈ ["./a/...", "a//sub", "./a/..."] := by
    intro spec
    simp only [List.mem_cons, List.not_mem_nil, or_false]
    tauto
  have hfirst : usedFiles (callBeside.loadModels ["a//sub", "./a/..."] ⟨"/"⟩) =
      some ["/a//sub/f.go"] := by
    decide +kernel
  have hsecond : usedFiles (callBeside.loadModels ["./a/...", "a//sub", "./a/..."] ⟨"/"⟩) =
      some ["/a/sub/f.go"] := by
    decide +kernel
  refine ⟨hdir, hspecs, hfirst, hsecond, ?_⟩
  obtain ⟨hboth, halike⟩ := loadModels_alike callBeside hdir hspecs
  cases h : callBeside.loadModels ["a//sub", "./a/..."] ⟨"/"⟩ with
  | error e =>
    rw [h] at hfirst
    cases hfirst
  | ok m =>
    obtain ⟨m', hm'⟩ := hboth.1 ⟨m, h⟩
    exact ⟨m, m', rfl, hm', halike m m' h hm'⟩

end FileTree

end CallPolicy
