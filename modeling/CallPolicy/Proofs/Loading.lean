import CallPolicy.FileTree.Loading
import CallPolicy.Proofs.Consistency
import CallPolicy.Proofs.OrderedMap
import Mathlib.Data.List.Forall2

/-!
# Which models are loaded

The files that specifiers name are gathered in a set in which a file counts by its components, and
are then loaded in the order of the set.  Here a run of the loader is taken apart: it has found some
paths for each specifier, it has loaded each of them once, in its first spelling, and the result is
the models of the files merged in order.

## Main statements

* `firstSpellings_values` — a set of files holds each path in its first spelling.
* `exists_loaded` — what a run of the loader has found, loaded and merged.
* `inRange_of_loadModel` — what is loaded from a file is consistent.
-/

namespace CallPolicy

/-- What passes validation is consistent, and is not changed by it. -/
theorem Model.inRange_of_validate {m m' : Model} (h : m.validate = .ok m') :
    m = m' ∧ m.InRange := by
  unfold Model.validate at h
  cases hfind : m.findDangling? with
  | some what => simp [hfind] at h
  | none =>
    rw [hfind] at h
    cases h
    exact ⟨rfl, (isConsistent_iff m).1 (by rw [isConsistent, hfind]; rfl)⟩

/-- Each element of the second list comes from one of the first. -/
theorem exists_mem_of_forall₂ {α β : Type} {R : α → β → Prop} {xs : List α} {ys : List β}
    (h : List.Forall₂ R xs ys) {y : β} (hy : y ∈ ys) : ∃ x ∈ xs, R x y := by
  induction h with
  | nil => simp at hy
  | cons hxy _ ih =>
    rcases List.mem_cons.1 hy with rfl | hy
    · exact ⟨_, List.mem_cons_self, hxy⟩
    · obtain ⟨x, hx, hr⟩ := ih hy
      exact ⟨x, List.mem_cons_of_mem _ hx, hr⟩

namespace FileTree

/-! ## Sets of files -/

/-- The files are those of `paths`, told apart by their components and in the order of these, each
in the spelling that comes first. -/
structure FirstSpellings (paths files : List Path) : Prop where
  sorted : files.Pairwise fun p q => compare p.components q.components = .lt
  mem_iff : ∀ p, p ∈ files ↔ paths.find? (·.components = p.components) = some p

/-- A key leads to what it led to before, or else to the first new path with these components. -/
theorem get?_addAll (files : FileSet) (paths : List Path) (key : List Path.Component) :
    (files.addAll paths).get? key = (files.get? key).or (paths.find? (·.components = key)) := by
  induction paths generalizing files with
  | nil => simp [FileSet.addAll]
  | cons p rest ih =>
    have hstep : files.addAll (p :: rest) =
        FileSet.addAll (files.insertNew p.components p) rest := rfl
    rw [hstep, ih, OrderedMap.get?_insertNew, List.find?_cons]
    by_cases hkey : key = p.components
    · subst hkey
      cases hget : files.get? p.components <;> simp
    · simp [hkey, Ne.symm hkey]

/-- An entry of a set of paths is the first one of them with its components. -/
theorem mem_entries_addAll_iff (paths : List Path) (key : List Path.Component) (p : Path) :
    (key, p) ∈ (FileSet.addAll .empty paths).entries ↔
      paths.find? (·.components = key) = some p := by
  rw [OrderedMap.mem_entries_iff, get?_addAll, OrderedMap.get?_empty, Option.none_or]

/-- The key of an entry is what its path means. -/
theorem key_of_mem_entries_addAll {paths : List Path} {entry : List Path.Component × Path}
    (h : entry ∈ (FileSet.addAll .empty paths).entries) : entry.1 = entry.2.components := by
  have hfind := (mem_entries_addAll_iff paths entry.1 entry.2).1 h
  have hcomponents := List.find?_some hfind
  exact (of_decide_eq_true hcomponents).symm

/-- **A set of files holds each path in its first spelling.** -/
theorem firstSpellings_values (paths : List Path) :
    FirstSpellings paths (FileSet.addAll .empty paths).values := by
  constructor
  · rw [OrderedMap.values, List.pairwise_map]
    refine (FileSet.addAll .empty paths).sorted.imp_of_mem ?_
    intro a b ha hb hlt
    rwa [key_of_mem_entries_addAll ha, key_of_mem_entries_addAll hb] at hlt
  · intro p
    rw [← mem_entries_addAll_iff, OrderedMap.values, List.mem_map]
    constructor
    · rintro ⟨⟨key, q⟩, hentry, rfl⟩
      have hkey : key = q.components := key_of_mem_entries_addAll hentry
      rwa [hkey] at hentry
    · exact fun hentry => ⟨_, hentry, rfl⟩

theorem addAll_append (files : FileSet) (paths paths' : List Path) :
    FileSet.addAll (files.addAll paths) paths' = files.addAll (paths ++ paths') :=
  List.foldl_append.symm

/-! ## Runs of the loader -/

theorem collect_nil (t : FileTree) (dir : Path) (files : FileSet) :
    t.collect dir [] files = .ok files := rfl

-- else the two sides are compared by running the search itself
attribute [local irreducible] discover in
theorem collect_cons (t : FileTree) (dir : Path) (spec : String) (specs : List String)
    (files : FileSet) :
    t.collect dir (spec :: specs) files =
      match t.discover spec dir with
      | .error e => .error e
      | .ok found => t.collect dir specs (files.addAll found) := by
  rfl

/-- What has been collected is what was found for each specifier, one after the other. -/
theorem exists_of_collect {t : FileTree} {dir : Path} {specs : List String} {files files' : FileSet}
    (h : t.collect dir specs files = .ok files') :
    ∃ found, List.Forall₂ (fun spec paths => t.discover spec dir = .ok paths) specs found ∧
      files' = files.addAll found.flatten := by
  induction specs generalizing files with
  | nil =>
    rw [collect_nil] at h
    cases h
    exact ⟨[], .nil, rfl⟩
  | cons spec specs ih =>
    rw [collect_cons] at h
    cases hspec : t.discover spec dir with
    | error e => simp [hspec] at h
    | ok paths =>
      rw [hspec] at h
      obtain ⟨found, hfound, rfl⟩ := ih h
      exact ⟨paths :: found, .cons hspec hfound, addAll_append _ _ _⟩

/-- What has been merged is the models of the files, one after the other. -/
theorem exists_of_mergeFiles {t : FileTree} {files : List Path} {m m' : Model}
    (h : t.mergeFiles m files = .ok m') :
    ∃ models, List.Forall₂ (fun file model => t.loadModel file = .ok model) files models ∧
      m' = models.foldl Model.merge m := by
  induction files generalizing m with
  | nil =>
    rw [mergeFiles] at h
    cases h
    exact ⟨[], .nil, rfl⟩
  | cons file files ih =>
    rw [mergeFiles] at h
    cases hfile : t.loadModel file with
    | error e => simp [hfile] at h
    | ok model =>
      rw [hfile] at h
      obtain ⟨models, hmodels, rfl⟩ := ih h
      exact ⟨model :: models, .cons hfile hmodels, rfl⟩

/-- A run of the loader that gave `m`: the paths found for each specifier, the files that were
loaded, and their models. -/
structure Loaded (t : FileTree) (specs : List String) (dir : Path) (m : Model)
    (found : List (List Path)) (files : List Path) (models : List Model) : Prop where
  discovered : List.Forall₂ (fun spec paths => t.discover spec dir = .ok paths)
    (effectiveSpecs specs) found
  spelled : FirstSpellings found.flatten files
  loaded : List.Forall₂ (fun file model => t.loadModel file = .ok model) files models
  merged : m = models.foldl Model.merge .empty

/-- **A run of the loader has found paths and has loaded each of them once, in its first
spelling.** -/
theorem exists_loaded {t : FileTree} {specs : List String} {dir : Path} {m : Model}
    (h : t.loadModels specs dir = .ok m) :
    ∃ found files models, Loaded t specs dir m found files models := by
  unfold loadModels at h
  cases hcollect : t.collect dir (effectiveSpecs specs) .empty with
  | error e => simp [hcollect] at h
  | ok files =>
    rw [hcollect] at h
    obtain ⟨found, hfound, rfl⟩ := exists_of_collect hcollect
    obtain ⟨models, hmodels, hmerged⟩ := exists_of_mergeFiles h
    exact ⟨found, _, models, hfound, firstSpellings_values _, hmodels, hmerged⟩

/-! ## Consistency -/

/-- What is loaded from a file is a consistent model that its text holds, possibly with other
paths. -/
theorem exists_of_loadModel {t : FileTree} {path : Path} {m : Model}
    (h : t.loadModel path = .ok m) :
    ∃ text model, t.readText path = .ok text ∧ Model.parse? text = some model ∧ model.InRange ∧
      (m = model ∨ ∃ f, m = model.mapPaths f) := by
  unfold loadModel at h
  cases htext : t.readText path with
  | error cause => simp [htext] at h
  | ok text =>
    cases hparse : Model.parse? text with
    | none => simp [htext, hparse] at h
    | some model =>
      cases hvalid : model.validate with
      | error e => simp [htext, hparse, hvalid, Except.map] at h
      | ok model' =>
        obtain ⟨rfl, hrange⟩ := Model.inRange_of_validate hvalid
        simp only [htext, hparse, hvalid, Except.map, Except.ok.injEq] at h
        refine ⟨text, model, rfl, hparse, hrange, ?_⟩
        split at h
        · exact .inr ⟨_, h.symm⟩
        · exact .inl h.symm

/-- What is loaded from a file is consistent. -/
theorem inRange_of_loadModel {t : FileTree} {path : Path} {m : Model}
    (h : t.loadModel path = .ok m) : m.InRange := by
  obtain ⟨-, model, -, -, hrange, rfl | ⟨f, rfl⟩⟩ := exists_of_loadModel h
  · exact hrange
  · exact (Model.inRange_mapPaths_iff f model).2 hrange

end FileTree

end CallPolicy
