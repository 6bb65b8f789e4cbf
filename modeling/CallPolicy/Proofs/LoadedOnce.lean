import CallPolicy.Proofs.Loading
import CallPolicy.Proofs.Location
import Mathlib.Data.List.Nodup

/-!
# How often a file is loaded

The loader tells files apart by the components of their paths, and never resolves a `..`.  So a file
is loaded once for each meaning of a path that leads to it: it is loaded more than once exactly if
the specifiers name it by paths that differ in their components but lead to one place.  Repeated and
overlapping specifiers, repeated slashes and `.` segments do no harm; a `..` in the place where a
search begins can.

## Main statements

* `FirstSpellings.nodup_map_iff` — when files in their first spellings are told apart by more than
  their components.
* `exists_contributions` — which files add their packages to a loaded model, and how often.
-/

namespace CallPolicy

/-! ## Trees with proper names -/

namespace FileNode

mutual

/-- Every entry at or below the node has a proper name. -/
def isWellNamed : FileNode → Bool
  | .file _ => true
  | .dir entries => areWellNamed entries

/-- The same for the entries of a directory. -/
def areWellNamed : List (String × FileNode) → Bool
  | [] => true
  | (name, node) :: rest => Path.isEntryName name && node.isWellNamed && areWellNamed rest

end

theorem isWellNamed_of_find? {name : String} {child : FileNode}
    {entries : List (String × FileNode)} (h : areWellNamed entries = true)
    (hchild : Entries.find? name entries = some child) : child.isWellNamed = true := by
  induction entries with
  | nil => cases hchild
  | cons entry rest ih =>
    obtain ⟨n, node⟩ := entry
    simp only [areWellNamed, Bool.and_eq_true] at h
    rw [Entries.find?] at hchild
    split at hchild
    · cases hchild
      exact h.1.2
    · exact ih h.2 hchild

/-- What a directory holds has proper names below it, as the directory has. -/
theorem isWellNamed_of_entry (entries : List (String × FileNode)) (name : String)
    (child : FileNode) (h : (FileNode.dir entries).isWellNamed = true)
    (hchild : Entries.find? name entries = some child) : child.isWellNamed = true := by
  rw [isWellNamed] at h
  exact isWellNamed_of_find? h hchild

theorem isWellNamed_of_at? {names : List String} {root node : FileNode}
    (h : root.isWellNamed = true) (hat : at? names root = some node) :
    node.isWellNamed = true :=
  forall_at? (P := fun node => node.isWellNamed = true) isWellNamed_of_entry h hat

/-! ## Collecting -/

section

variable {deep : Bool}

mutual

theorem isEntryName_of_mem_modelNamesAt {name : String} {names : List String}
    (hname : Path.isEntryName name = true) : ∀ node : FileNode, node.isWellNamed = true →
      names ∈ node.modelNamesAt deep name → ∀ n ∈ names, Path.isEntryName n = true
  | .file _, _, h => by
    rw [modelNamesAt] at h
    split at h
    · rw [List.mem_singleton.1 h]
      exact List.forall_mem_singleton.2 hname
    · cases h
  | .dir entries, hnode, h => by
    rw [isWellNamed] at hnode
    rw [modelNamesAt] at h
    split at h
    · obtain ⟨below, hbelow, rfl⟩ := List.mem_map.1 h
      exact List.forall_mem_cons.2 ⟨hname, isEntryName_of_mem_modelNames entries hnode hbelow⟩
    · cases h

/-- The names that are collected are proper. -/
theorem isEntryName_of_mem_modelNames {names : List String} :
    ∀ entries : List (String × FileNode), areWellNamed entries = true →
      names ∈ modelNames deep entries → ∀ n ∈ names, Path.isEntryName n = true
  | [], _, h => by
    rw [modelNames] at h
    cases h
  | (name, node) :: rest, hentries, h => by
    simp only [areWellNamed, Bool.and_eq_true] at hentries
    obtain ⟨⟨hname, hnode⟩, hrest⟩ := hentries
    rw [modelNames, List.mem_append] at h
    rcases h with h | h
    · exact isEntryName_of_mem_modelNamesAt hname node hnode h
    · exact isEntryName_of_mem_modelNames rest hrest h

end

/-- What is found at a node is the node itself, or it is below its entries. -/
theorem mem_of_find? {ν : Type} [FileName ν] [Ord ν] {node : FileNode ν} {found : List (List ν)}
    {names : List ν} (h : node.find? deep = some found) (hnames : names ∈ found) :
    (∃ text, node = .file text ∧ names = []) ∨
      ∃ entries, node = .dir entries ∧ names ∈ modelNames deep entries := by
  unfold find? at h
  split at h
  · split at h
    · cases h
    · cases h
      exact .inl ⟨_, rfl, List.mem_singleton.1 hnames⟩
  · split at h
    · cases h
    · cases h
      exact .inr ⟨_, rfl, (stableSort_perm _).mem_iff.1 hnames⟩

end

end FileNode

namespace FileTree

variable {t : FileTree} {dir : Path} {spec : String}

theorem Target.isAbsolute_root (target : Target) (hdir : dir.isAbsolute = true) :
    (target.root dir).isAbsolute = true := by
  unfold Target.root
  split
  · exact hdir
  · exact Path.isAbsolute_join hdir _

/-- A search that finds something looks at the node where it begins. -/
theorem find?_eq_some_iff {ν : Type} [DecidableEq ν] [FileName ν] [Ord ν] {t : FileTree ν}
    {found : List (List ν)} :
    t.find? spec dir = some found ↔ ∃ node, t.lookup ((Target.ofSpec spec).root dir) = .ok node ∧
      node.find? (Target.ofSpec spec).deep = some found := by
  unfold find?
  cases hlookup : t.lookup ((Target.ofSpec spec).root dir) <;> simp [hlookup]

/-- The paths found are those of the names, joined to where the search begins. -/
theorem discover_eq_ok_iff {paths : List Path} :
    t.discover spec dir = .ok paths ↔ ∃ found, t.find? spec dir = some found ∧
      paths = found.map ((Target.ofSpec spec).root dir).joinAll := by
  unfold discover
  cases t.find? spec dir <;> simp [eq_comm]

/-- A search fails exactly if it finds nothing. -/
theorem discover_eq_notFound_iff :
    t.discover spec dir = .error (.notFound spec dir) ↔ t.find? spec dir = none := by
  unfold discover
  cases t.find? spec dir <;> simp

/-- The names that are found are proper. -/
theorem isEntryName_of_mem_find? (hroot : t.root.isWellNamed = true) {found : List (List String)}
    (h : t.find? spec dir = some found) {names : List String} (hnames : names ∈ found) :
    ∀ name ∈ names, Path.isEntryName name = true := by
  obtain ⟨node, hlookup, hfind⟩ := find?_eq_some_iff.1 h
  have hnode : node.isWellNamed = true :=
    forall_lookup (P := fun node => node.isWellNamed = true) FileNode.isWellNamed_of_entry hroot
      hlookup
  rcases FileNode.mem_of_find? hfind hnames with ⟨-, -, rfl⟩ | ⟨entries, rfl, hmem⟩
  · exact List.forall_mem_nil _
  · rw [FileNode.isWellNamed] at hnode
    exact FileNode.isEntryName_of_mem_modelNames entries hnode hmem

/-- What holds where the search begins and passes on to entries holds of all that is found. -/
theorem forall_mem_discover {P : Path → Prop} {paths : List Path}
    (hentry : ∀ here name, P here → Path.isEntryName name = true → P (here.join ⟨name⟩))
    (hnames : t.root.isWellNamed = true) (hroot : P ((Target.ofSpec spec).root dir))
    (h : t.discover spec dir = .ok paths) : ∀ p ∈ paths, P p := by
  obtain ⟨found, hfound, rfl⟩ := discover_eq_ok_iff.1 h
  rw [List.forall_mem_map]
  intro names hmem
  exact List.foldlRecOn names _ hroot fun here hhere name hname =>
    hentry here name hhere (isEntryName_of_mem_find? hnames hfound hmem name hname)

/-- All that is found below an absolute directory has an absolute path. -/
theorem isAbsolute_of_mem_discover {paths : List Path} (hnames : t.root.isWellNamed = true)
    (hdir : dir.isAbsolute = true) (h : t.discover spec dir = .ok paths) :
    ∀ p ∈ paths, p.isAbsolute = true :=
  forall_mem_discover (fun _ _ hhere _ => Path.isAbsolute_join hhere _) hnames
    (Target.isAbsolute_root _ hdir) h

/-- A search that begins without `..` finds paths without `..`. -/
theorem parent_not_mem_of_mem_discover {paths : List Path} (hnames : t.root.isWellNamed = true)
    (hdir : dir.isAbsolute = true) (hroot : .parent ∉ ((Target.ofSpec spec).root dir).components)
    (h : t.discover spec dir = .ok paths) : ∀ p ∈ paths, .parent ∉ p.components := by
  have hboth : ∀ p ∈ paths, p.isAbsolute = true ∧ .parent ∉ p.components := by
    refine forall_mem_discover ?_ hnames ⟨Target.isAbsolute_root _ hdir, hroot⟩ h
    rintro here name ⟨habs, hparent⟩ hname
    refine ⟨Path.isAbsolute_join habs _, ?_⟩
    rw [Path.components_join_entry (Path.text_ne_of_isAbsolute habs) hname]
    simpa using hparent
  exact fun p hp => (hboth p hp).2

/-! ## First spellings -/

theorem FirstSpellings.mem_paths {paths files : List Path} (h : FirstSpellings paths files)
    {p : Path} (hp : p ∈ files) : p ∈ paths :=
  List.mem_of_find?_eq_some ((h.mem_iff p).1 hp)

/-- Each path has a first spelling. -/
theorem FirstSpellings.exists_spelling {paths files : List Path} (h : FirstSpellings paths files)
    {p : Path} (hp : p ∈ paths) : ∃ file ∈ files, file.components = p.components := by
  have hsome : (paths.find? (·.components = p.components)).isSome = true :=
    List.find?_isSome.2 ⟨p, hp, decide_eq_true rfl⟩
  obtain ⟨file, hfile⟩ := Option.isSome_iff_exists.1 hsome
  have hcomponents : file.components = p.components := by
    simpa using List.find?_some hfile
  exact ⟨file, (h.mem_iff file).2 (hcomponents ▸ hfile), hcomponents⟩

/-- **Files in their first spellings differ in what `f` reads off their components exactly if no
paths with other components agree in it.** -/
theorem FirstSpellings.nodup_map_iff {β : Type} {paths files : List Path} {f : Path → β}
    (h : FirstSpellings paths files) (hf : ∀ p q, p.components = q.components → f p = f q) :
    (files.map f).Nodup ↔
      ∀ p ∈ paths, ∀ q ∈ paths, f p = f q → p.components = q.components := by
  constructor
  · intro hnodup p hp q hq hpq
    obtain ⟨p', hp', hcomponents⟩ := h.exists_spelling hp
    obtain ⟨q', hq', hcomponents'⟩ := h.exists_spelling hq
    have hagree : f p' = f q' :=
      calc f p' = f p := hf _ _ hcomponents
        _ = f q := hpq
        _ = f q' := (hf _ _ hcomponents').symm
    rw [← hcomponents, ← hcomponents', List.inj_on_of_nodup_map hnodup hp' hq' hagree]
  · intro hpaths
    rw [List.Nodup, List.pairwise_map]
    refine h.sorted.imp_of_mem ?_
    intro p q hp hq hlt hagree
    rw [hpaths p (h.mem_paths hp) q (h.mem_paths hq) hagree, Std.ReflOrd.compare_self] at hlt
    cases hlt

/-! ## What files add -/

/-- What a file adds to a model: the packages in it, with the numbers of the symbols shifted. -/
def Adds (t : FileTree) (file : Path) (part : List Package) : Prop :=
  ∃ model k, t.loadModel file = .ok model ∧ part = model.packages.map (Package.shiftSymbols k)

/-- Each of several models adds its packages to what they are merged after. -/
theorem exists_packages_foldl_merge (m : Model) {files : List Path} {models : List Model}
    (h : List.Forall₂ (fun file model => t.loadModel file = .ok model) files models) :
    ∃ parts, List.Forall₂ t.Adds files parts ∧
      (models.foldl Model.merge m).packages = m.packages ++ parts.flatten := by
  induction h generalizing m with
  | nil => exact ⟨[], .nil, (List.append_nil _).symm⟩
  | @cons file model files models hfile _ ih =>
    obtain ⟨parts, hparts, hpackages⟩ := ih (m.merge model)
    refine ⟨_ :: parts, .cons ⟨model, m.symbols.length, hfile, rfl⟩ hparts, ?_⟩
    rw [List.foldl_cons, hpackages, List.flatten_cons, ← List.append_assoc]
    rfl

/-- A file from which a model was loaded is a file of the tree. -/
theorem exists_at?_of_loadModel {file : Path} {model : Model} (habs : file.isAbsolute = true)
    (h : t.loadModel file = .ok model) :
    ∃ text, t.root.at? (namesOf file) = some (.file (some text)) := by
  unfold loadModel readText at h
  cases hlookup : t.lookup file with
  | error e => simp [hlookup] at h
  | ok node =>
    rw [hlookup] at h
    match node with
    | .file (some text) => exact ⟨text, at?_of_lookup habs hlookup⟩
    | .file none => cases h
    | .dir _ => cases h

/-- Whatever is found is found for one of the specifiers. -/
theorem exists_discover_of_mem {specs : List String} {found : List (List Path)}
    (h : List.Forall₂ (fun spec paths => t.discover spec dir = .ok paths) specs found)
    {p : Path} (hp : p ∈ found.flatten) :
    ∃ spec ∈ specs, ∃ paths, t.discover spec dir = .ok paths ∧ p ∈ paths := by
  obtain ⟨paths, hpaths, hmem⟩ := List.mem_flatten.1 hp
  obtain ⟨spec, hspec, hfound⟩ := exists_mem_of_forall₂ h hpaths
  exact ⟨spec, hspec, paths, hfound, hmem⟩

/-- How the packages of `m` came from files. -/
structure Contributions (t : FileTree) (specs : List String) (dir : Path) (m : Model)
    (found : List (List Path)) (files : List Path) (parts : List (List Package)) : Prop where
  /-- What each specifier names. -/
  discovered : List.Forall₂ (fun spec paths => t.discover spec dir = .ok paths)
    (effectiveSpecs specs) found
  /-- The paths that are loaded, in the order of their components. -/
  spelled : FirstSpellings found.flatten files
  /-- Each of them leads to a file of the tree. -/
  located : ∀ file ∈ files, ∃ text, t.root.at? (namesOf file) = some (.file (some text))
  added : List.Forall₂ t.Adds files parts
  packages : m.packages = parts.flatten
  /-- No file of the tree is loaded twice, unless paths with other components lead to it. -/
  once_iff : (files.map namesOf).Nodup ↔ ∀ p ∈ found.flatten, ∀ q ∈ found.flatten,
    namesOf p = namesOf q → p.components = q.components

/-- **A file adds its packages once, unless it is named through `..`.** -/
theorem exists_contributions {specs : List String} {m : Model} (hnames : t.root.isWellNamed = true)
    (hdir : dir.isAbsolute = true) (h : t.loadModels specs dir = .ok m) :
    ∃ found files parts, Contributions t specs dir m found files parts ∧
      ((∀ spec ∈ effectiveSpecs specs, .parent ∉ ((Target.ofSpec spec).root dir).components) →
        (files.map namesOf).Nodup) := by
  obtain ⟨found, files, models, hrun⟩ := exists_loaded h
  obtain ⟨parts, hadded, hpackages⟩ := exists_packages_foldl_merge .empty hrun.loaded
  have habs : ∀ p ∈ found.flatten, p.isAbsolute = true := by
    intro p hp
    obtain ⟨spec, -, paths, hfound, hmem⟩ := exists_discover_of_mem hrun.discovered hp
    exact isAbsolute_of_mem_discover hnames hdir hfound p hmem
  have honce : (files.map namesOf).Nodup ↔ ∀ p ∈ found.flatten, ∀ q ∈ found.flatten,
      namesOf p = namesOf q → p.components = q.components :=
    hrun.spelled.nodup_map_iff fun p q hpq => congrArg (settle []) hpq
  refine ⟨found, files, parts, ⟨hrun.discovered, hrun.spelled, ?_, hadded, ?_, honce⟩, ?_⟩
  · intro file hfile
    obtain ⟨model, -, hload⟩ := exists_mem_of_forall₂ hrun.loaded.flip hfile
    exact exists_at?_of_loadModel (habs file (hrun.spelled.mem_paths hfile)) hload
  · rw [hrun.merged, hpackages]
    rfl
  · intro hroots
    have hparent : ∀ p ∈ found.flatten, .parent ∉ p.components := by
      intro p hp
      obtain ⟨spec, hspec, paths, hfound, hmem⟩ := exists_discover_of_mem hrun.discovered hp
      exact parent_not_mem_of_mem_discover hnames hdir (hroots spec hspec) hfound p hmem
    rw [honce]
    intro p hp q hq hpq
    rw [components_eq_of_parent_not_mem (habs p hp) (hparent p hp),
      components_eq_of_parent_not_mem (habs q hq) (hparent q hq), hpq]

/-- A tree with one model file, which holds one package, and an empty directory beside it. -/
def besideEmpty : FileTree where
  root := .dir
    [("a", .dir
      [("x.callgate.json", .file (some "\x7b\"packages\":[\x7b\"path\":\"p\"\x7d]\x7d"))]),
      ("b", .dir [])]

/-- The paths of the packages in a loaded model. -/
def packagePaths (loaded : Except ResolveError Model) : Option (List String) :=
  loaded.toOption.map fun m => m.packages.map Package.path

theorem exists_contributions_besideEmpty :
    besideEmpty.root.isWellNamed = true ∧ (⟨"/"⟩ : Path).isAbsolute = true ∧
      packagePaths (besideEmpty.loadModels ["a", "./a/...", "/a//x.callgate.json"] ⟨"/"⟩) =
        some ["p"] ∧
      ∃ m found files parts,
        Contributions besideEmpty ["a", "./a/...", "/a//x.callgate.json"] ⟨"/"⟩ m found files
          parts ∧ (files.map namesOf).Nodup := by
  have hnames : besideEmpty.root.isWellNamed = true := by decide +kernel
  have hdir : (⟨"/"⟩ : Path).isAbsolute = true := by decide +kernel
  have hpaths : packagePaths
      (besideEmpty.loadModels ["a", "./a/...", "/a//x.callgate.json"] ⟨"/"⟩) = some ["p"] := by
    decide +kernel
  have hroots : ∀ spec ∈ effectiveSpecs ["a", "./a/...", "/a//x.callgate.json"],
      .parent ∉ ((Target.ofSpec spec).root ⟨"/"⟩).components := by
    decide +kernel
  cases h : besideEmpty.loadModels ["a", "./a/...", "/a//x.callgate.json"] ⟨"/"⟩ with
  | error e =>
    rw [h] at hpaths
    cases hpaths
  | ok m =>
    obtain ⟨found, files, parts, hcontributions, honce⟩ := exists_contributions hnames hdir h
    exact ⟨hnames, hdir, h ▸ hpaths, m, found, files, parts, hcontributions, honce hroots⟩

/-- A file is loaded twice if it is named once through `..` and once without. -/
theorem packagePaths_respelled :
    packagePaths (besideEmpty.loadModel ⟨"/a/x.callgate.json"⟩) = some ["p"] ∧
      packagePaths (besideEmpty.loadModels ["a", "b/../a"] ⟨"/"⟩) = some ["p", "p"] := by
  decide +kernel

end FileTree

end CallPolicy
