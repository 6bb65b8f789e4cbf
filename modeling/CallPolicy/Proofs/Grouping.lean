import CallPolicy.FileTree.Loading
import CallPolicy.Proofs.Naming

/-!
# Merging in groups

When three models are merged, the numbers of the third are shifted once past the first two, or first
past the second and then past the first.  Shifts add up, so both ways lead to the same model, and
with the empty model merging is a monoid.  Therefore it does not matter how a sequence of files is
divided: each part may be loaded and merged by itself, and parts of parts again, before the results
are put together.

## Main statements

* `Model.merge_assoc`, `Model.empty_merge` — merging is associative, and the empty model is neutral.
* `FileTree.mergeFiles_append`, `FileTree.mergeFiles_eq_map` — the loader goes through a sequence in
  parts.
* `Grouping.load_eq_mergeFiles` — files in any grouping make the model of their sequence.
* `merge_isMonoid` — merging is a monoid operation, and the loader does not depend on grouping.
-/

namespace CallPolicy

/-! ## The monoid of models -/

/-- Shifts of the symbols used by a package add up. -/
theorem Package.shiftSymbols_shiftSymbols (k l : Nat) (p : Package) :
    (p.shiftSymbols k).shiftSymbols l = p.shiftSymbols (k + l) := by
  unfold shiftSymbols
  simp only [List.map_map, Function.comp_def, Nat.add_assoc]

theorem Package.shiftSymbols_zero (p : Package) : p.shiftSymbols 0 = p := by
  unfold shiftSymbols
  simp only [Nat.add_zero, List.map_id']

namespace Model

/-- Lists with shifted parts are appended alike in both groupings. -/
theorem append_map_append {α : Type} {f g h : α → α} (hshift : ∀ x, g (f x) = h x)
    (xs ys zs : List α) :
    xs ++ ys.map g ++ zs.map h = xs ++ (ys ++ zs.map f).map g := by
  have hmap : (zs.map f).map g = zs.map h := by
    rw [List.map_map]
    exact List.map_congr_left fun x _ => hshift x
  rw [List.map_append, hmap, List.append_assoc]

/-- **Models may be merged in either grouping.** -/
theorem merge_assoc (a b c : Model) : (a.merge b).merge c = a.merge (b.merge c) := by
  have hsymbols : (a.merge b).symbols.length = b.symbols.length + a.symbols.length := by
    simp [merge, Nat.add_comm]
  have htypes : (a.merge b).types.length = b.types.length + a.types.length := by
    simp [merge, Nat.add_comm]
  rw [merge.eq_1 (a.merge b), merge.eq_1 a (b.merge c), hsymbols, htypes]
  congr 1
  · exact append_map_append (Package.shiftSymbols_shiftSymbols _ _) _ _ _
  · exact append_map_append (Symbol.shift_shift _ _) _ _ _
  · exact append_map_append (TypeDef.shift_shift _ _) _ _ _

/-- Merging into nothing changes nothing. -/
theorem empty_merge (m : Model) : empty.merge m = m := by
  obtain ⟨packages, symbols, types⟩ := m
  have hpackages : packages.map (Package.shiftSymbols 0) = packages := by
    rw [funext Package.shiftSymbols_zero, List.map_id']
  have hsymbols : symbols.map (Symbol.shift 0) = symbols := by
    rw [funext Symbol.shift_zero, List.map_id']
  have htypes : types.map (TypeDef.shift 0) = types := by
    rw [funext TypeDef.shift_zero, List.map_id']
  simp only [merge, empty, List.length_nil, List.nil_append, hpackages, hsymbols, htypes]

end Model

/-! ## Sequences of files -/

namespace FileTree

variable {t : FileTree}

/-- A sequence of files is merged in two parts. -/
theorem mergeFiles_append (m : Model) (files files' : List Path) :
    t.mergeFiles m (files ++ files') =
      match t.mergeFiles m files with
      | .error e => .error e
      | .ok m' => t.mergeFiles m' files' := by
  induction files generalizing m with
  | nil => rfl
  | cons file files ih =>
    rw [List.cons_append, mergeFiles, mergeFiles]
    cases t.loadModel file with
    | error e => rfl
    | ok next => exact ih (m.merge next)

/-- Files may be merged with each other before they are merged into a model. -/
theorem mergeFiles_eq_map (m : Model) (files : List Path) :
    t.mergeFiles m files = (t.mergeFiles .empty files).map m.merge := by
  induction files generalizing m with
  | nil => rw [mergeFiles, mergeFiles, Except.map, Model.merge_empty]
  | cons file files ih =>
    rw [mergeFiles, mergeFiles]
    cases t.loadModel file with
    | error e => rfl
    | ok next =>
      show t.mergeFiles (m.merge next) files =
        (t.mergeFiles (Model.empty.merge next) files).map m.merge
      rw [ih (m.merge next), Model.empty_merge, ih next]
      cases t.mergeFiles .empty files with
      | error e => rfl
      | ok rest => exact congrArg Except.ok (Model.merge_assoc m next rest)

end FileTree

/-! ## Groupings -/

/-- A way to divide a sequence of files into groups of groups. -/
inductive Grouping where
  | nothing
  | file (path : Path)
  | parts (first second : Grouping)
deriving DecidableEq, Repr

namespace Grouping

/-- The files in order. -/
def files : Grouping → List Path
  | .nothing => []
  | .file path => [path]
  | .parts first second => first.files ++ second.files

/-- The model of the files, where the model of each group is made by itself. -/
def load (t : FileTree) : Grouping → Except ResolveError Model
  | .nothing => .ok .empty
  | .file path => t.loadModel path
  | .parts first second =>
    match first.load t with
    | .error e => .error e
    | .ok m => (second.load t).map m.merge

/-- **Files in any grouping make the model of their sequence,** or fail as it does. -/
theorem load_eq_mergeFiles (t : FileTree) (g : Grouping) :
    g.load t = t.mergeFiles .empty g.files := by
  induction g with
  | nothing => rfl
  | file path =>
    rw [load, files, FileTree.mergeFiles]
    cases t.loadModel path with
    | error e => rfl
    | ok m =>
      show _ = Except.ok (Model.empty.merge m)
      rw [Model.empty_merge]
  | parts first second ihfirst ihsecond =>
    rw [load, files, FileTree.mergeFiles_append, ihfirst, ihsecond]
    cases t.mergeFiles .empty first.files with
    | error e => rfl
    | ok m => exact (FileTree.mergeFiles_eq_map m second.files).symm

end Grouping

/-- **Merging is a monoid operation,** and the model that is loaded does not depend on how the files
that were found are grouped. -/
theorem merge_isMonoid :
    (∀ a b c : Model, (a.merge b).merge c = a.merge (b.merge c)) ∧
    (∀ m : Model, Model.empty.merge m = m ∧ m.merge .empty = m) ∧
    ∀ (t : FileTree) (specs : List String) (dir : Path) (found : FileTree.FileSet),
      t.collect dir (FileTree.effectiveSpecs specs) .empty = .ok found →
      ∀ g : Grouping, g.files = found.values → g.load t = t.loadModels specs dir := by
  refine ⟨Model.merge_assoc, fun m => ⟨m.empty_merge, m.merge_empty⟩, ?_⟩
  intro t specs dir found hfound g hfiles
  rw [Grouping.load_eq_mergeFiles, hfiles, FileTree.loadModels, hfound]

/-- The text of a model with one alias, which stands for itself. -/
def oneAlias : String :=
  "\x7b\"types\":[\x7b\"name\":\"A\",\"kind\":\"alias\",\"target\":\x7b\"named\":0\x7d\x7d]\x7d"

/-- Three model files in one directory. -/
def threeFiles : FileTree where
  root := .dir
    [("w", .dir
      [("a.callgate.json", .file (some oneAlias)),
        ("b.callgate.json", .file (some oneAlias)),
        ("c.callgate.json", .file (some oneAlias))])]

theorem merge_isMonoid_threeFiles :
    ∃ found, threeFiles.collect ⟨"/w"⟩ (FileTree.effectiveSpecs []) .empty = .ok found ∧
      found.values = [⟨"/w/a.callgate.json"⟩, ⟨"/w/b.callgate.json"⟩, ⟨"/w/c.callgate.json"⟩] ∧
      (threeFiles.loadModels [] ⟨"/w"⟩).toBool = true ∧
      (Grouping.parts (.file ⟨"/w/a.callgate.json"⟩)
        (.parts (.file ⟨"/w/b.callgate.json"⟩) (.file ⟨"/w/c.callgate.json"⟩))).load threeFiles =
          threeFiles.loadModels [] ⟨"/w"⟩ ∧
      (Grouping.parts (.parts (.file ⟨"/w/a.callgate.json"⟩) (.file ⟨"/w/b.callgate.json"⟩))
        (.parts .nothing (.file ⟨"/w/c.callgate.json"⟩))).load threeFiles =
          threeFiles.loadModels [] ⟨"/w"⟩ := by
  have hvalues : (threeFiles.collect ⟨"/w"⟩ (FileTree.effectiveSpecs []) .empty).toOption.map
      OrderedMap.values =
        some [⟨"/w/a.callgate.json"⟩, ⟨"/w/b.callgate.json"⟩, ⟨"/w/c.callgate.json"⟩] := by
    decide +kernel
  have hok : (threeFiles.loadModels [] ⟨"/w"⟩).toBool = true := by decide +kernel
  cases hfound : threeFiles.collect ⟨"/w"⟩ (FileTree.effectiveSpecs []) .empty with
  | error e =>
    rw [hfound] at hvalues
    cases hvalues
  | ok found =>
    rw [hfound] at hvalues
    have hfiles := Option.some.inj hvalues
    have hgroups := merge_isMonoid.2.2 threeFiles [] ⟨"/w"⟩ found hfound
    exact ⟨found, rfl, hfiles, hok, hgroups _ hfiles.symm, hgroups _ hfiles.symm⟩

end CallPolicy
