import CallPolicy.Proofs.LoadedOnce

/-!
# What is found below a directory

A search tells what it finds by names, which depend on the tree alone and not on the path to where
the search begins.  The names lead to a file, end in the name of a model file, and pass no directory
that is not entered.  All this is so for names of any kind.  Joined to where the search begins, the
names become paths.

## Main statements

* `FileNode.mem_modelNames_iff` — which names lead to a model file.
* `FileNode.nodup_modelNames` — every file is found once.
* `FileTree.find?_of_dir`, `FileTree.discover_of_dir` — a search that begins at a directory.
* `FileTree.cases_of_mem_discover` — what a specifier names.
-/

namespace CallPolicy

/-! ## Names on the way -/

namespace Path

theorem joinAll_nil (p : Path) : p.joinAll [] = p := rfl

theorem joinAll_cons (p : Path) (name : String) (names : List String) :
    p.joinAll (name :: names) = (p.join ⟨name⟩).joinAll names := rfl

theorem joinAll_concat (p : Path) (names : List String) (name : String) :
    p.joinAll (names ++ [name]) = (p.joinAll names).join ⟨name⟩ :=
  List.foldl_concat _ _ _ _

theorem isAbsolute_joinAll {p : Path} (h : p.isAbsolute = true) (names : List String) :
    (p.joinAll names).isAbsolute = true := by
  induction names generalizing p with
  | nil => exact h
  | cons name names ih => exact ih (isAbsolute_join h ⟨name⟩)

/-- Each name adds one component. -/
theorem components_joinAll_of_ne {p : Path} (hp : p.text ≠ "") {names : List String}
    (hnames : ∀ name ∈ names, isEntryName name = true) :
    (p.joinAll names).components = p.components ++ names.map .name := by
  induction names generalizing p with
  | nil => exact (List.append_nil _).symm
  | cons name names ih =>
    rw [List.forall_mem_cons] at hnames
    have hjoin := text_join_ne hp (isAbsolute_of_isEntryName hnames.1)
    rw [joinAll_cons, ih hjoin hnames.2, components_join_entry hp hnames.1,
      List.map_cons, List.append_assoc, List.singleton_append]

theorem components_joinAll {p : Path} (hp : p.isAbsolute = true) {names : List String}
    (hnames : ∀ name ∈ names, isEntryName name = true) :
    (p.joinAll names).components = p.components ++ names.map .name :=
  components_joinAll_of_ne (text_ne_of_isAbsolute hp) hnames

end Path

section

variable {ν : Type} [FileName ν]

/-- The names end in that of a model file, and no directory before it is left out; there is none at
all unless the search is `deep`. -/
def isModelPath (deep : Bool) : List ν → Bool
  | [] => false
  | [name] => isModelName name
  | dir :: names => deep && !isSkippedDir dir && isModelPath deep names

theorem isModelPath_cons_cons (deep : Bool) (dir name : ν) (names : List ν) :
    isModelPath deep (dir :: name :: names) =
      (deep && !isSkippedDir dir && isModelPath deep (name :: names)) := rfl

/-- The last of the names is that of a model file. -/
theorem exists_of_isModelPath {deep : Bool} {names : List ν}
    (h : isModelPath deep names = true) :
    ∃ dirs name, names = dirs ++ [name] ∧ isModelName name = true := by
  fun_induction isModelPath deep names with
  | case1 => cases h
  | case2 name => exact ⟨[], name, rfl, h⟩
  | case3 dir names _ ih =>
    rw [Bool.and_eq_true] at h
    obtain ⟨dirs, name, rfl, hname⟩ := ih h.2
    exact ⟨dir :: dirs, name, rfl, hname⟩

namespace FileNode

mutual

theorem isModelPath_of_mem_modelNamesAt {deep : Bool} {name : ν} {names : List ν} :
    ∀ node : FileNode ν, names ∈ node.modelNamesAt deep name → isModelPath deep names = true
  | .file _, h => by
    rw [modelNamesAt] at h
    split at h
    · rw [List.mem_singleton] at h
      subst h
      assumption
    · cases h
  | .dir entries, h => by
    rw [modelNamesAt] at h
    split at h
    · rename_i hentered
      obtain ⟨below, hbelow, rfl⟩ := List.mem_map.1 h
      have hpath := isModelPath_of_mem_modelNames entries hbelow
      cases below with
      | nil => cases hpath
      | cons next below => rw [isModelPath_cons_cons, hentered, hpath, Bool.and_self]
    · cases h

/-- What is found is named as a model file and lies in no directory that is left out. -/
theorem isModelPath_of_mem_modelNames {deep : Bool} {names : List ν} :
    ∀ entries : List (ν × FileNode ν), names ∈ modelNames deep entries →
      isModelPath deep names = true
  | [], h => by
    rw [modelNames] at h
    cases h
  | (_, node) :: rest, h => by
    rw [modelNames, List.mem_append] at h
    rcases h with h | h
    · exact isModelPath_of_mem_modelNamesAt node h
    · exact isModelPath_of_mem_modelNames rest h

end

end FileNode

end

/-! ## Trees with distinct names -/

namespace FileNode

section

variable {ν : Type} [DecidableEq ν]

mutual

/-- No directory at or below the node has two entries of one name. -/
def hasDistinctNames : FileNode ν → Bool
  | .file _ => true
  | .dir entries => haveDistinctNames entries

/-- The same for the entries of a directory. -/
def haveDistinctNames : List (ν × FileNode ν) → Bool
  | [] => true
  | (name, node) :: rest =>
    (Entries.find? name rest).isNone && node.hasDistinctNames && haveDistinctNames rest

end

theorem hasDistinctNames_of_find? {name : ν} {child : FileNode ν}
    {entries : List (ν × FileNode ν)} (h : haveDistinctNames entries = true)
    (hchild : Entries.find? name entries = some child) : child.hasDistinctNames = true := by
  induction entries with
  | nil => cases hchild
  | cons entry rest ih =>
    obtain ⟨n, node⟩ := entry
    simp only [haveDistinctNames, Bool.and_eq_true] at h
    rw [Entries.find?] at hchild
    split at hchild
    · cases hchild
      exact h.1.2
    · exact ih h.2 hchild

/-- What a directory holds has distinct names below it, as the directory has. -/
theorem hasDistinctNames_of_entry (entries : List (ν × FileNode ν)) (name : ν)
    (child : FileNode ν) (h : (FileNode.dir entries).hasDistinctNames = true)
    (hchild : Entries.find? name entries = some child) : child.hasDistinctNames = true := by
  rw [hasDistinctNames] at h
  exact hasDistinctNames_of_find? h hchild

theorem hasDistinctNames_of_at? {names : List ν} {root node : FileNode ν}
    (h : root.hasDistinctNames = true) (hat : at? names root = some node) :
    node.hasDistinctNames = true :=
  forall_at? (P := fun node => node.hasDistinctNames = true) hasDistinctNames_of_entry h hat

variable [FileName ν]

mutual

theorem exists_at?_of_mem_modelNamesAt {deep : Bool} {name : ν} {names : List ν} :
    ∀ node : FileNode ν, node.hasDistinctNames = true → names ∈ node.modelNamesAt deep name →
      ∃ below text, names = name :: below ∧ at? below node = some (.file text)
  | .file text, _, h => by
    rw [modelNamesAt] at h
    split at h
    · exact ⟨[], text, List.mem_singleton.1 h, rfl⟩
    · cases h
  | .dir entries, hdistinct, h => by
    rw [hasDistinctNames] at hdistinct
    rw [modelNamesAt] at h
    split at h
    · obtain ⟨below, hbelow, rfl⟩ := List.mem_map.1 h
      obtain ⟨text, hat⟩ := exists_at?_of_mem_modelNames entries hdistinct hbelow
      exact ⟨below, text, rfl, hat⟩
    · cases h

/-- What is found is a file of the tree. -/
theorem exists_at?_of_mem_modelNames {deep : Bool} {names : List ν} :
    ∀ entries : List (ν × FileNode ν), haveDistinctNames entries = true →
      names ∈ modelNames deep entries → ∃ text, at? names (.dir entries) = some (.file text)
  | [], _, h => by
    rw [modelNames] at h
    cases h
  | (name, node) :: rest, hdistinct, h => by
    simp only [haveDistinctNames, Bool.and_eq_true, Option.isNone_iff_eq_none] at hdistinct
    obtain ⟨⟨hfirst, hnode⟩, hrest⟩ := hdistinct
    rw [modelNames, List.mem_append] at h
    rcases h with h | h
    · obtain ⟨below, text, rfl, hat⟩ := exists_at?_of_mem_modelNamesAt node hnode h
      refine ⟨text, ?_⟩
      rw [at?, Entries.find?, if_pos rfl, Option.bind_some, hat]
    · obtain ⟨text, hat⟩ := exists_at?_of_mem_modelNames rest hrest h
      refine ⟨text, ?_⟩
      cases names with
      | nil => cases hat
      | cons other below =>
        -- a name that leads into the rest is not that of the first entry
        have hother : name ≠ other := by
          rintro rfl
          rw [at?, hfirst] at hat
          cases hat
        rw [at?, Entries.find?, if_neg hother]
        exact hat

end

mutual

theorem nodup_modelNamesAt (deep : Bool) (name : ν) :
    ∀ node : FileNode ν, node.hasDistinctNames = true → (node.modelNamesAt deep name).Nodup
  | .file _, _ => by
    rw [modelNamesAt]
    split <;> simp
  | .dir entries, h => by
    rw [hasDistinctNames] at h
    rw [modelNamesAt]
    split
    · exact (nodup_modelNames deep entries h).map (List.cons_injective)
    · exact List.nodup_nil

/-- Every file is found once. -/
theorem nodup_modelNames (deep : Bool) :
    ∀ entries : List (ν × FileNode ν), haveDistinctNames entries = true →
      (modelNames deep entries).Nodup
  | [], _ => by
    rw [modelNames]
    exact List.nodup_nil
  | (name, node) :: rest, h => by
    simp only [haveDistinctNames, Bool.and_eq_true, Option.isNone_iff_eq_none] at h
    obtain ⟨⟨hfirst, hnode⟩, hrest⟩ := h
    rw [modelNames]
    refine (nodup_modelNamesAt deep name node hnode).append (nodup_modelNames deep rest hrest) ?_
    -- names that begin with that of the first entry lead nowhere in the rest
    intro names hat hrestAt
    obtain ⟨below, text, rfl, -⟩ := exists_at?_of_mem_modelNamesAt node hnode hat
    obtain ⟨text', hfile⟩ := exists_at?_of_mem_modelNames rest hrest hrestAt
    rw [at?, hfirst] at hfile
    cases hfile

end

theorem mem_modelNames_of_find? {deep : Bool} {name : ν} {node : FileNode ν}
    {names : List ν} {entries : List (ν × FileNode ν)}
    (hfind : Entries.find? name entries = some node) (h : names ∈ node.modelNamesAt deep name) :
    names ∈ modelNames deep entries := by
  induction entries with
  | nil => cases hfind
  | cons entry rest ih =>
    obtain ⟨other, node'⟩ := entry
    rw [modelNames, List.mem_append]
    rw [Entries.find?] at hfind
    split at hfind
    · rename_i hname
      cases hfind
      exact .inl (hname ▸ h)
    · exact .inr (ih hfind)

/-- A file of the tree that is named as a model file is found. -/
theorem mem_modelNames_of_at? {deep : Bool} {names : List ν}
    {entries : List (ν × FileNode ν)} {text : Option String}
    (hpath : isModelPath deep names = true) (hat : at? names (.dir entries) = some (.file text)) :
    names ∈ modelNames deep entries := by
  induction names generalizing entries with
  | nil => cases hpath
  | cons name below ih =>
    obtain ⟨node, hfind, hnode⟩ := Option.bind_eq_some_iff.1 hat
    refine mem_modelNames_of_find? hfind ?_
    cases below with
    | nil =>
      cases hnode
      rw [isModelPath] at hpath
      rw [modelNamesAt, if_pos hpath]
      exact List.mem_cons_self
    | cons next below =>
      cases node with
      | file text => cases hnode
      | dir entries =>
        rw [isModelPath_cons_cons, Bool.and_eq_true] at hpath
        rw [modelNamesAt, if_pos hpath.1]
        exact List.mem_map_of_mem (ih hpath.2 hnode)

/-- **The names that are found lead to a file, end in the name of a model file, and pass no
directory that is left out.** -/
theorem mem_modelNames_iff {deep : Bool} {names : List ν}
    {entries : List (ν × FileNode ν)} (h : haveDistinctNames entries = true) :
    names ∈ modelNames deep entries ↔
      isModelPath deep names = true ∧ ∃ text, at? names (.dir entries) = some (.file text) := by
  constructor
  · intro hnames
    exact ⟨isModelPath_of_mem_modelNames entries hnames,
      exists_at?_of_mem_modelNames entries h hnames⟩
  · rintro ⟨hpath, text, hat⟩
    exact mem_modelNames_of_at? hpath hat

end

/-! ## Trees with proper names -/

theorem isEntryName_of_find? {name : String} {child : FileNode}
    {entries : List (String × FileNode)} (h : areWellNamed entries = true)
    (hchild : Entries.find? name entries = some child) : Path.isEntryName name = true := by
  induction entries with
  | nil => cases hchild
  | cons entry rest ih =>
    obtain ⟨n, node⟩ := entry
    simp only [areWellNamed, Bool.and_eq_true] at h
    rw [Entries.find?] at hchild
    split at hchild
    · rename_i hn
      exact hn ▸ h.1.1
    · exact ih h.2 hchild

theorem isEntryName_of_at? {names : List String} {node target : FileNode}
    (h : node.isWellNamed = true) (hat : at? names node = some target) :
    ∀ name ∈ names, Path.isEntryName name = true := by
  induction names generalizing node with
  | nil => exact List.forall_mem_nil _
  | cons name names ih =>
    cases node with
    | file text => cases hat
    | dir entries =>
      rw [isWellNamed] at h
      obtain ⟨child, hchild, hat⟩ := Option.bind_eq_some_iff.1 hat
      exact List.forall_mem_cons.2
        ⟨isEntryName_of_find? h hchild, ih (isWellNamed_of_find? h hchild) hat⟩

end FileNode

/-! ## Searching -/

section

variable {ν : Type} [Ord ν]

theorem mem_sortNames {found : List (List ν)} {names : List ν} :
    names ∈ sortNames found ↔ names ∈ found :=
  (stableSort_perm found).mem_iff

/-- What a search finds in a directory. -/
theorem FileNode.find?_dir [FileName ν] (deep : Bool) (entries : List (ν × FileNode ν)) :
    (FileNode.dir entries).find? deep =
      if modelNames deep entries = [] then none
      else some (sortNames (modelNames deep entries)) := by
  rw [find?]
  cases modelNames deep entries <;> simp

variable [Std.TransOrd ν]

theorem pairwise_sortNames (found : List (List ν)) :
    (sortNames found).Pairwise fun a b => (compare a b).isLE = true := by
  refine pairwise_stableSort (fun _ _ _ => Std.TransCmp.isLE_trans) ?_ found
  intro a b
  have hswap : compare b a = (compare a b).swap := Std.OrientedCmp.eq_swap
  cases hcompare : compare a b <;> simp [hswap, hcompare]

/-- Names have one order. -/
theorem sortNames_eq_of_perm [Std.LawfulEqOrd ν] {found found' : List (List ν)}
    (h : found.Perm found') : sortNames found = sortNames found' := by
  refine List.Perm.eq_of_pairwise ?_ (pairwise_sortNames found) (pairwise_sortNames found')
    (((stableSort_perm found).trans h).trans (stableSort_perm found').symm)
  intro a b _ _ hab hba
  exact Std.LawfulEqCmp.eq_of_compare (Std.OrientedCmp.isLE_antisymm hab hba)

end

namespace FileTree

variable {spec : String} {dir : Path}

section

variable {ν : Type} [DecidableEq ν] [FileName ν] [Ord ν] {t : FileTree ν}

theorem find?_of_error {e : FileError}
    (h : t.lookup ((Target.ofSpec spec).root dir) = .error e) : t.find? spec dir = none := by
  unfold find?
  simp only [h]

/-- What is found depends on where the search begins, not on the way there. -/
theorem find?_of_ok {node : FileNode ν} (h : t.lookup ((Target.ofSpec spec).root dir) = .ok node) :
    t.find? spec dir = node.find? (Target.ofSpec spec).deep := by
  unfold find?
  simp only [h]

/-- A file is found where the search begins. -/
theorem find?_of_file {text : Option String}
    (h : t.lookup ((Target.ofSpec spec).root dir) = .ok (.file text)) :
    t.find? spec dir = if (Target.ofSpec spec).deep then none else some [[]] :=
  find?_of_ok h

/-- **A search that begins at a directory finds the model files below it.** -/
theorem find?_of_dir {entries : List (ν × FileNode ν)}
    (h : t.lookup ((Target.ofSpec spec).root dir) = .ok (.dir entries)) :
    t.find? spec dir =
      if FileNode.modelNames (Target.ofSpec spec).deep entries = [] then none
      else some (sortNames (FileNode.modelNames (Target.ofSpec spec).deep entries)) := by
  rw [find?_of_ok h, FileNode.find?_dir]

end

variable {t : FileTree}

theorem discover_of_error {e : FileError}
    (h : t.lookup ((Target.ofSpec spec).root dir) = .error e) :
    t.discover spec dir = .error (.notFound spec dir) :=
  discover_eq_notFound_iff.2 (find?_of_error h)

/-- A file names itself. -/
theorem discover_of_file {text : Option String}
    (h : t.lookup ((Target.ofSpec spec).root dir) = .ok (.file text)) :
    t.discover spec dir =
      if (Target.ofSpec spec).deep then .error (.notFound spec dir)
      else .ok [(Target.ofSpec spec).root dir] := by
  unfold discover
  rw [find?_of_file h]
  cases (Target.ofSpec spec).deep <;> rfl

/-- A directory names the model files below it. -/
theorem discover_of_dir {entries : List (String × FileNode)}
    (h : t.lookup ((Target.ofSpec spec).root dir) = .ok (.dir entries)) :
    t.discover spec dir =
      if FileNode.modelNames (Target.ofSpec spec).deep entries = [] then
        .error (.notFound spec dir)
      else
        .ok ((sortNames (FileNode.modelNames (Target.ofSpec spec).deep entries)).map
          ((Target.ofSpec spec).root dir).joinAll) := by
  unfold discover
  rw [find?_of_dir h]
  by_cases hnone : FileNode.modelNames (Target.ofSpec spec).deep entries = []
  · rw [if_pos hnone, if_pos hnone]
  · rw [if_neg hnone, if_neg hnone]

theorem exists_discover_of_mem_modelNames {entries : List (String × FileNode)}
    {names : List String} (h : t.lookup ((Target.ofSpec spec).root dir) = .ok (.dir entries))
    (hnames : names ∈ FileNode.modelNames (Target.ofSpec spec).deep entries) :
    ∃ paths, t.discover spec dir = .ok paths ∧
      ((Target.ofSpec spec).root dir).joinAll names ∈ paths := by
  rw [discover_of_dir h, if_neg (List.ne_nil_of_mem hnames)]
  exact ⟨_, rfl, List.mem_map_of_mem (mem_sortNames.2 hnames)⟩

/-- **What is found is the file where the search begins, or is below the directory there.** -/
theorem cases_of_mem_discover {paths : List Path} (h : t.discover spec dir = .ok paths) {p : Path}
    (hp : p ∈ paths) :
    (∃ text, t.lookup ((Target.ofSpec spec).root dir) = .ok (.file text) ∧
      p = (Target.ofSpec spec).root dir) ∨
    ∃ entries names, t.lookup ((Target.ofSpec spec).root dir) = .ok (.dir entries) ∧
      names ∈ FileNode.modelNames (Target.ofSpec spec).deep entries ∧
      p = ((Target.ofSpec spec).root dir).joinAll names := by
  obtain ⟨found, hfound, rfl⟩ := discover_eq_ok_iff.1 h
  obtain ⟨node, hlookup, hfind⟩ := find?_eq_some_iff.1 hfound
  obtain ⟨names, hnames, rfl⟩ := List.mem_map.1 hp
  rcases FileNode.mem_of_find? hfind hnames with ⟨text, rfl, rfl⟩ | ⟨entries, rfl, hmem⟩
  · exact .inl ⟨text, hlookup, rfl⟩
  · exact .inr ⟨entries, names, hlookup, hmem, rfl⟩

end FileTree

end CallPolicy
