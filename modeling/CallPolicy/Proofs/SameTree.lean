import CallPolicy.Proofs.Spelling

/-!
# Trees that differ in hidden files

Two trees have the same directories and the same files, but for files at places that are called
*hidden*.  A walk through both keeps to directories that are at the same place, until it meets a
hidden place: there it fails, or it ends at a file, in both trees alike or not.  So a path that does
not come by a hidden place shows the same in both, and a search that finds no hidden file finds the
same files.

## Main statements

* `FileTree.SameBut.lookup` — where a path leads in the two trees.
* `FileTree.SameBut.discover_eq` — a search that finds no hidden file.
* `FileTree.SameBut.loadModels_eq` — specifiers that name no hidden file load the same model.
-/

namespace CallPolicy

namespace FileNode

/-- What is seen of a node from outside: what a file holds, and that a directory is one. -/
def glance : FileNode → Option (Option String)
  | .file text => some text
  | .dir _ => none

variable {root here : FileNode} {names : List String} {up : List FileNode}

theorem Reached.length_eq (h : Reached root names up here) : up.length = names.length := by
  induction h with
  | start => rfl
  | enter _ _ ih => simp [ih]

/-- Below a directory, a file that is put where no directory is changes what is there only. -/
theorem at?_put {entries : List (String × FileNode)} {name : String} {text : Option String}
    (hname : ∀ below, Entries.find? name entries ≠ some (.dir below)) (hnil : names ≠ [])
    (hself : names ≠ [name]) :
    at? names (.dir (Entries.put name (.file text) entries)) = at? names (.dir entries) := by
  obtain ⟨first, rest, rfl⟩ := List.exists_cons_of_ne_nil hnil
  rw [at?, at?, Entries.find?_put]
  by_cases hfirst : first = name
  · subst hfirst
    obtain ⟨next, below, rfl⟩ := List.exists_cons_of_ne_nil fun h => hself (h ▸ rfl)
    rw [if_pos rfl]
    cases hfind : Entries.find? first entries with
    | none => rfl
    | some node =>
      cases node with
      | file old => rfl
      | dir below => exact absurd hfind (hname below)
  · rw [if_neg hfirst]

/-- A walk from a node that may not be there. -/
def walkFrom {ν : Type} [DecidableEq ν] [FileName ν] (up : List (FileNode ν))
    (node? : Option (FileNode ν)) (segments : List (List Char)) : Except FileError (FileNode ν) :=
  match node? with
  | none => .error .notFound
  | some node => walk up node segments

end FileNode

namespace FileTree

open FileNode (Reached walkFrom)

/-- The trees have the same directories, and the same files but for those at hidden places. -/
structure SameBut (hidden : List String → Prop) (t t' : FileTree) : Prop where
  workingDir : t'.workingDir = t.workingDir
  dirs : ∀ names, (∃ entries, t.root.at? names = some (.dir entries)) ↔
    ∃ entries, t'.root.at? names = some (.dir entries)
  files : ∀ names text, ¬ hidden names →
    (t.root.at? names = some (.file text) ↔ t'.root.at? names = some (.file text))

variable {hidden : List String → Prop} {t t' : FileTree}

theorem SameBut.symm (h : SameBut hidden t t') : SameBut hidden t' t where
  workingDir := h.workingDir.symm
  dirs := fun names => (h.dirs names).symm
  files := fun names text hnames => (h.files names text hnames).symm

/-- There are directories at a place in both trees, or the same file or nothing, or the place is
hidden. -/
theorem SameBut.at?_cases (h : SameBut hidden t t') (names : List String) :
    (∃ entries entries', t.root.at? names = some (.dir entries) ∧
      t'.root.at? names = some (.dir entries')) ∨
    ((∀ entries, t.root.at? names ≠ some (.dir entries)) ∧
      (∀ entries, t'.root.at? names ≠ some (.dir entries)) ∧
      (t'.root.at? names = t.root.at? names ∨ hidden names)) := by
  by_cases hdir : ∃ entries, t.root.at? names = some (.dir entries)
  · obtain ⟨entries, hentries⟩ := hdir
    obtain ⟨entries', hentries'⟩ := (h.dirs names).1 ⟨entries, hentries⟩
    exact .inl ⟨entries, entries', hentries, hentries'⟩
  · have hdir' : ¬ ∃ entries, t'.root.at? names = some (.dir entries) := fun hc =>
      hdir ((h.dirs names).2 hc)
    refine .inr ⟨fun entries hc => hdir ⟨entries, hc⟩, fun entries hc => hdir' ⟨entries, hc⟩, ?_⟩
    by_cases hhidden : hidden names
    · exact .inr hhidden
    · left
      cases hat : t.root.at? names with
      | none =>
        cases hat' : t'.root.at? names with
        | none => rfl
        | some node =>
          cases node with
          | file text =>
            rw [(h.files names text hhidden).2 hat'] at hat
            cases hat
          | dir entries => exact absurd ⟨entries, hat'⟩ hdir'
      | some node =>
        cases node with
        | file text => exact (h.files names text hhidden).1 hat
        | dir entries => exact absurd ⟨entries, hat⟩ hdir

/-- A file that is put where no directory is makes a difference there and nowhere else. -/
theorem sameBut_put {entries : List (String × FileNode)} {name : String} (workingDir : Path)
    (text : Option String) (hname : ∀ below, Entries.find? name entries ≠ some (.dir below)) :
    SameBut (· = [name]) ⟨.dir entries, workingDir⟩
      ⟨.dir (Entries.put name (.file text) entries), workingDir⟩ where
  workingDir := rfl
  dirs := by
    intro names
    by_cases hnil : names = []
    · simp [hnil, FileNode.at?]
    · by_cases hself : names = [name]
      · subst hself
        cases hfind : Entries.find? name entries with
        | none => simp [FileNode.at?, Entries.find?_put, hfind]
        | some node => simpa [FileNode.at?, Entries.find?_put, hfind] using hname
      · simp only [FileNode.at?_put hname hnil hself]
  files := by
    intro names new hself
    by_cases hnil : names = []
    · simp [hnil, FileNode.at?]
    · simp only [FileNode.at?_put hname hnil hself]

/-! ## Walks -/

/-- A walk that still had the given components to go has failed, or it had none and has ended at a
file. -/
def Barred (rest : List Path.Component) (result : Except FileError FileNode) : Prop :=
  (∃ e, result = .error e) ∨ (rest = [] ∧ ∃ text, result = .ok (.file text))

theorem barred_walkFrom {node? : Option FileNode} (h : ∀ entries, node? ≠ some (.dir entries))
    (up : List FileNode) (segments : List (List Char)) :
    Barred (Path.componentsOf segments) (walkFrom up node? segments) := by
  cases node? with
  | none => exact .inl ⟨.notFound, rfl⟩
  | some node =>
    cases node with
    | dir entries => exact absurd rfl (h entries)
    | file text =>
      cases segments with
      | nil => exact .inr ⟨rfl, text, rfl⟩
      | cons s rest => exact .inl ⟨.notDirectory, rfl⟩

/-- How a walk has come to a node makes no difference if that is no directory. -/
theorem walkFrom_congr {node? : Option FileNode} (h : ∀ entries, node? ≠ some (.dir entries))
    (up up' : List FileNode) (segments : List (List Char)) :
    walkFrom up' node? segments = walkFrom up node? segments := by
  cases node? with
  | none => rfl
  | some node =>
    cases node with
    | dir entries => exact absurd rfl (h entries)
    | file text => cases segments <;> rfl

/-- The results of two walks with the given components from one place show the same, or the walks
have met a hidden place where both were decided. -/
def Agree (hidden : List String → Prop) (names : List String) (components : List Path.Component)
    (result result' : Except FileError FileNode) : Prop :=
  result'.map FileNode.glance = result.map FileNode.glance ∨
    ∃ front rest, components = front ++ rest ∧ hidden (settle names front) ∧
      Barred rest result ∧ Barred rest result'

/-- One component leads from one place to another. -/
theorem Agree.cons {names names' : List String} {components : List Path.Component}
    {result result' : Except FileError FileNode} {c : Path.Component}
    (hstep : ∀ front, settle names (c :: front) = settle names' front)
    (h : Agree hidden names' components result result') :
    Agree hidden names (c :: components) result result' := by
  rcases h with hsame | ⟨front, rest, rfl, hhidden, hresults⟩
  · exact .inl hsame
  · exact .inr ⟨c :: front, rest, rfl, (hstep front).symm ▸ hhidden, hresults⟩

/-- The directories `up` are those on the way to a place, if there is anything. -/
def Along (t : FileTree) (names : List String) (up : List FileNode) : Prop :=
  ∀ node, t.root.at? names = some node → Reached t.root names up node

theorem along_nil (t : FileTree) : Along t [] [] := by
  rintro node ⟨rfl⟩
  exact .start

theorem along_concat {names : List String} {up : List FileNode}
    {entries : List (String × FileNode)} (h : Reached t.root names up (.dir entries))
    (name : String) : Along t (names ++ [name]) (.dir entries :: up) := by
  intro node hnode
  rw [FileNode.at?_append_singleton h.at?_eq] at hnode
  exact .enter h hnode

theorem along_of_reached {names : List String} {up : List FileNode} {here : FileNode}
    (h : Reached t.root names up here) : Along t names up := by
  intro node hnode
  rw [h.at?_eq] at hnode
  cases hnode
  exact h

/-- **A walk shows the same in both trees, or it meets a hidden place.**  As long as it has not, it
stands in directories at the same place. -/
theorem SameBut.walkFrom (h : SameBut hidden t t') {names : List String} {up up' : List FileNode}
    (hup : Along t names up) (hup' : Along t' names up') (segments : List (List Char)) :
    Agree hidden names (Path.componentsOf segments) (walkFrom up (t.root.at? names) segments)
      (walkFrom up' (t'.root.at? names) segments) := by
  induction segments generalizing names up up' with
  | nil =>
    rcases h.at?_cases names with ⟨entries, entries', hat, hat'⟩ | ⟨hno, hno', hsame | hhidden⟩
    · left
      rw [hat, hat']
      rfl
    · left
      rw [hsame, walkFrom_congr hno]
    · exact .inr ⟨[], [], rfl, hhidden, barred_walkFrom hno _ [], barred_walkFrom hno' _ []⟩
  | cons s rest ih =>
    rcases h.at?_cases names with ⟨entries, entries', hat, hat'⟩ | ⟨hno, hno', hsame | hhidden⟩
    · have hreached := hup _ hat
      have hreached' := hup' _ hat'
      rw [hat, hat']
      simp only [FileNode.walkFrom]
      by_cases hidle : Path.isIdle s = true
      · rw [FileNode.walk_of_isIdle hidle, FileNode.walk_of_isIdle hidle,
          Path.componentsOf_cons_of_isIdle hidle]
        have hrest := ih hup hup'
        rwa [hat, hat'] at hrest
      · have hbusy : Path.isIdle s = false := Bool.eq_false_iff.2 hidle
        rw [Path.componentsOf_cons hbusy]
        by_cases hparent : s = ['.', '.']
        · subst hparent
          have hlength : up'.length = up.length := by
            rw [hreached.length_eq, hreached'.length_eq]
          cases up with
          | nil =>
            obtain rfl := List.length_eq_zero_iff.1 hlength
            obtain rfl := hreached.names_eq_nil
            have hrest := ih hup hup'
            rw [hat, hat'] at hrest
            exact hrest.cons fun _ => rfl
          | cons parent up =>
            obtain ⟨parent', up', rfl⟩ := List.exists_cons_of_length_eq_add_one hlength
            have hrest := ih (along_of_reached hreached.leave) (along_of_reached hreached'.leave)
            rw [hreached.leave.at?_eq, hreached'.leave.at?_eq] at hrest
            exact hrest.cons fun _ => rfl
        · rw [FileNode.walk_name hbusy hparent, FileNode.walk_name hbusy hparent,
            FileName.ofText_eq, Path.Component.ofSegment, if_neg hparent]
          have hrest := ih (along_concat hreached (String.ofList s))
            (along_concat hreached' (String.ofList s))
          rw [FileNode.at?_append_singleton hat, FileNode.at?_append_singleton hat'] at hrest
          exact hrest.cons fun _ => rfl
    · left
      rw [hsame, walkFrom_congr hno]
    · exact .inr ⟨[], _, rfl, hhidden, barred_walkFrom hno _ _, barred_walkFrom hno' _ _⟩

/-! ## Looking up -/

/-- The names from the root of the place that a path stands for, seen from the working directory. -/
def place (t : FileTree) (p : Path) : List String :=
  namesOf (t.workingDir.join p)

/-- **A path shows the same in both trees, or it comes by a hidden place.** -/
theorem SameBut.lookup (h : SameBut hidden t t') (p : Path) :
    Agree hidden [] (Path.componentsOf (t.workingDir.join p).segments) (t.lookup p)
      (t'.lookup p) := by
  unfold FileTree.lookup
  split
  · exact .inl rfl
  · split
    · exact .inl rfl
    · rw [h.workingDir]
      exact h.walkFrom (along_nil t) (along_nil t') _

/-- The path leads through a hidden place as if that were a directory. -/
def LeadsThrough (hidden : List String → Prop) (t : FileTree) (p : Path) : Prop :=
  ∃ front rest, Path.componentsOf (t.workingDir.join p).segments = front ++ rest ∧ rest ≠ [] ∧
    hidden (settle [] front)

/-- A path to a place that is not hidden shows the same in both trees, or it leads through a hidden
place and so nowhere. -/
theorem SameBut.lookup_cases (h : SameBut hidden t t') {p : Path} (hp : ¬ hidden (t.place p)) :
    (t'.lookup p).map FileNode.glance = (t.lookup p).map FileNode.glance ∨
      (LeadsThrough hidden t p ∧ (∃ e, t.lookup p = .error e) ∧ ∃ e, t'.lookup p = .error e) := by
  rcases h.lookup p with hsame | ⟨front, rest, hcomponents, hhidden, hbarred, hbarred'⟩
  · exact .inl hsame
  · have hrest : rest ≠ [] := by
      rintro rfl
      rw [List.append_nil] at hcomponents
      rw [place, namesOf_eq, hcomponents] at hp
      exact hp hhidden
    have herror : ∀ {result}, Barred rest result → ∃ e, result = .error e := fun hresult =>
      hresult.resolve_right fun hc => hrest hc.1
    exact .inr ⟨⟨front, rest, hcomponents, hrest, hhidden⟩, herror hbarred, herror hbarred'⟩

/-- Results that show the same are the same error, the same file, or both a directory. -/
theorem glance_cases {result result' : Except FileError FileNode}
    (h : result'.map FileNode.glance = result.map FileNode.glance) :
    (∃ e, result = .error e ∧ result' = .error e) ∨
      (∃ text, result = .ok (.file text) ∧ result' = .ok (.file text)) ∨
      ∃ entries entries', result = .ok (.dir entries) ∧ result' = .ok (.dir entries') := by
  cases result with
  | error e =>
    cases result' with
    | error e' =>
      cases h
      exact .inl ⟨e, rfl, rfl⟩
    | ok node' => cases h
  | ok node =>
    cases result' with
    | error e' => cases h
    | ok node' =>
      cases node <;> cases node' <;> cases h
      · exact .inr (.inl ⟨_, rfl, rfl⟩)
      · exact .inr (.inr ⟨_, _, rfl, rfl⟩)

/-- What is a directory in one tree is one in the other. -/
theorem SameBut.exists_lookup_dir (h : SameBut hidden t t') {p : Path}
    {entries : List (String × FileNode)} (hp : t.lookup p = .ok (.dir entries)) :
    ∃ entries', t'.lookup p = .ok (.dir entries') := by
  rcases h.lookup p with hsame | ⟨_, _, _, _, hbarred, _⟩
  · rcases glance_cases hsame with ⟨e, he, -⟩ | ⟨text, hfile, -⟩ | ⟨-, entries', -, hdir'⟩
    · cases he.symm.trans hp
    · cases hfile.symm.trans hp
    · exact ⟨entries', hdir'⟩
  · rcases hbarred with ⟨e, he⟩ | ⟨-, text, hfile⟩
    · cases he.symm.trans hp
    · cases hfile.symm.trans hp

/-- What shows the same is read with the same result. -/
theorem readText_of_glance {p : Path}
    (h : (t'.lookup p).map FileNode.glance = (t.lookup p).map FileNode.glance) :
    t'.readText p = t.readText p := by
  rcases glance_cases h with ⟨e, he, he'⟩ | ⟨text, hfile, hfile'⟩ | ⟨entries, entries', hdir, hdir'⟩
  · simp only [readText, he, he']
  · simp only [readText, hfile, hfile']
  · simp only [readText, hdir, hdir']

/-! ## Searching -/

/-- A file system can hold the tree: entries have proper names, and those of a directory have
different ones.  The names here are texts, which those in a file system need not be. -/
structure IsProper (t : FileTree) : Prop where
  wellNamed : t.root.isWellNamed = true
  distinct : t.root.hasDistinctNames = true

theorem settle_append (names : List String) (cs ds : List Path.Component) :
    settle names (cs ++ ds) = settle (settle names cs) ds := by
  induction cs generalizing names with
  | nil => rfl
  | cons c cs ih => cases c <;> exact ih _

/-- What is below a directory is at a place below it. -/
theorem namesOf_joinAll {p : Path} {names : List String} (hp : p.isAbsolute = true)
    (hnames : ∀ name ∈ names, Path.isEntryName name = true) :
    namesOf (p.joinAll names) = namesOf p ++ names := by
  rw [namesOf, Path.components_joinAll hp hnames, settle_append, settle_map_name]
  rfl

theorem place_of_isAbsolute {p : Path} (hp : p.isAbsolute = true) : t.place p = namesOf p := by
  rw [place, Path.join_of_isAbsolute hp]

/-- An entry is at a place below that of its directory. -/
theorem place_join {dir : Path} {name : String} (hworking : t.workingDir.isAbsolute = true)
    (hname : Path.isEntryName name = true) : t.place (dir.join ⟨name⟩) = t.place dir ++ [name] := by
  have hentry : ∀ n ∈ [name], Path.isEntryName n = true := List.forall_mem_singleton.2 hname
  have hnames := namesOf_joinAll (Path.isAbsolute_join hworking dir) hentry
  rw [Path.joinAll_cons, Path.joinAll_nil] at hnames
  rw [place, Path.join_assoc, hnames, place]

/-- None of the files that a specifier names is at a hidden place. -/
def FindsNone (t : FileTree) (hidden : List String → Prop) (spec : String) (dir : Path) : Prop :=
  ∀ paths, t.discover spec dir = .ok paths → ∀ p ∈ paths, ¬ hidden (t.place p)

section Discover

variable {spec : String} {dir : Path}

/-- A file that is found in one tree and not hidden is in the other one too. -/
theorem SameBut.exists_of_mem_modelNames (h : SameBut hidden t t') (ht : t.IsProper)
    (hdir : dir.isAbsolute = true) {entries entries' : List (String × FileNode)}
    (hroot : t.lookup ((Target.ofSpec spec).root dir) = .ok (.dir entries))
    (hroot' : t'.lookup ((Target.ofSpec spec).root dir) = .ok (.dir entries'))
    (hfound : t.FindsNone hidden spec dir)
    {names : List String} (hnames : names ∈ FileNode.modelNames (Target.ofSpec spec).deep entries) :
    (∀ name ∈ names, Path.isEntryName name = true) ∧
      isModelPath (Target.ofSpec spec).deep names = true ∧
      ∃ text, FileNode.at? names (.dir entries) = some (.file text) ∧
        FileNode.at? names (.dir entries') = some (.file text) := by
  have habs := Target.isAbsolute_root (Target.ofSpec spec) hdir
  have hat := at?_of_lookup habs hroot
  have hat' := at?_of_lookup habs hroot'
  have hwell : FileNode.isWellNamed (.dir entries) = true :=
    FileNode.isWellNamed_of_at? ht.wellNamed hat
  have hdistinct : FileNode.hasDistinctNames (.dir entries) = true :=
    FileNode.hasDistinctNames_of_at? ht.distinct hat
  rw [FileNode.hasDistinctNames] at hdistinct
  obtain ⟨hpath, text, hfile⟩ := (FileNode.mem_modelNames_iff hdistinct).1 hnames
  have hproper := FileNode.isEntryName_of_at? hwell hfile
  refine ⟨hproper, hpath, text, hfile, ?_⟩
  -- the file is at a place that is not hidden
  obtain ⟨paths, hpaths, hmem⟩ := exists_discover_of_mem_modelNames hroot hnames
  have hplace := hfound paths hpaths _ hmem
  rw [place_of_isAbsolute (Path.isAbsolute_joinAll habs names),
    namesOf_joinAll habs hproper] at hplace
  have hboth := h.files _ text hplace
  rw [FileNode.at?_append, FileNode.at?_append, hat, hat', Option.bind_some, Option.bind_some]
    at hboth
  exact hboth.1 hfile

/-- A search that comes to a directory in both trees, and finds no hidden file, finds the same. -/
theorem SameBut.discover_eq_of_dir (h : SameBut hidden t t') (ht : t.IsProper) (ht' : t'.IsProper)
    (hdir : dir.isAbsolute = true) {entries entries' : List (String × FileNode)}
    (hroot : t.lookup ((Target.ofSpec spec).root dir) = .ok (.dir entries))
    (hroot' : t'.lookup ((Target.ofSpec spec).root dir) = .ok (.dir entries'))
    (hfound : t.FindsNone hidden spec dir)
    (hfound' : t'.FindsNone hidden spec dir) :
    t'.discover spec dir = t.discover spec dir := by
  have habs := Target.isAbsolute_root (Target.ofSpec spec) hdir
  have hdistinct : ∀ {t : FileTree} {entries}, t.IsProper →
      t.lookup ((Target.ofSpec spec).root dir) = .ok (.dir entries) →
      (FileNode.modelNames (Target.ofSpec spec).deep entries).Nodup := by
    intro t entries ht hroot
    have hnode := FileNode.hasDistinctNames_of_at? ht.distinct (at?_of_lookup habs hroot)
    rw [FileNode.hasDistinctNames] at hnode
    exact FileNode.nodup_modelNames _ entries hnode
  have hperm : (FileNode.modelNames (Target.ofSpec spec).deep entries').Perm
      (FileNode.modelNames (Target.ofSpec spec).deep entries) := by
    refine (List.perm_ext_iff_of_nodup (hdistinct ht' hroot') (hdistinct ht hroot)).2 ?_
    intro names
    constructor
    · intro hnames
      obtain ⟨-, hpath, text, -, hfile⟩ :=
        h.symm.exists_of_mem_modelNames ht' hdir hroot' hroot hfound' hnames
      exact FileNode.mem_modelNames_of_at? hpath hfile
    · intro hnames
      obtain ⟨-, hpath, text, -, hfile⟩ :=
        h.exists_of_mem_modelNames ht hdir hroot hroot' hfound hnames
      exact FileNode.mem_modelNames_of_at? hpath hfile
  rw [discover_of_dir hroot, discover_of_dir hroot', sortNames_eq_of_perm hperm]
  simp only [← List.length_eq_zero_iff, hperm.length_eq]

/-- A search that comes by a hidden place, and finds no hidden file, finds nothing. -/
theorem discover_of_barred {rest : List Path.Component} (hdir : dir.isAbsolute = true)
    (hbarred : Barred rest (t.lookup ((Target.ofSpec spec).root dir)))
    (hhidden : rest = [] → hidden (namesOf ((Target.ofSpec spec).root dir)))
    (hfound : t.FindsNone hidden spec dir) :
    t.discover spec dir = .error (.notFound spec dir) := by
  have habs := Target.isAbsolute_root (Target.ofSpec spec) hdir
  rcases hbarred with ⟨e, he⟩ | ⟨hrest, text, htext⟩
  · exact discover_of_error he
  · by_cases hdeep : (Target.ofSpec spec).deep = true
    · rw [discover_of_file htext, if_pos hdeep]
    · have hself : t.discover spec dir = .ok [(Target.ofSpec spec).root dir] := by
        rw [discover_of_file htext, if_neg hdeep]
      have hplace := hfound _ hself _ List.mem_cons_self
      rw [place_of_isAbsolute habs] at hplace
      exact absurd (hhidden hrest) hplace

/-- **A search that finds no hidden file in either tree finds the same in both.** -/
theorem SameBut.discover_eq (h : SameBut hidden t t') (ht : t.IsProper) (ht' : t'.IsProper)
    (hdir : dir.isAbsolute = true)
    (hfound : t.FindsNone hidden spec dir)
    (hfound' : t'.FindsNone hidden spec dir) :
    t'.discover spec dir = t.discover spec dir := by
  have habs := Target.isAbsolute_root (Target.ofSpec spec) hdir
  rcases h.lookup ((Target.ofSpec spec).root dir) with
    hsame | ⟨front, rest, hcomponents, hhidden, hbarred, hbarred'⟩
  · rcases glance_cases hsame with ⟨e, he, he'⟩ | ⟨text, hfile, hfile'⟩ | ⟨_, _, hroot, hroot'⟩
    · rw [discover_of_error he, discover_of_error he']
    · rw [discover_of_file hfile, discover_of_file hfile']
    · exact h.discover_eq_of_dir ht ht' hdir hroot hroot' hfound hfound'
  · have hrest : rest = [] → hidden (namesOf ((Target.ofSpec spec).root dir)) := by
      rintro rfl
      rw [Path.join_of_isAbsolute habs, List.append_nil] at hcomponents
      rw [namesOf_eq, hcomponents]
      exact hhidden
    rw [discover_of_barred hdir hbarred hrest hfound,
      discover_of_barred hdir hbarred' hrest hfound']

/-- **What a search finds, and is not hidden, is read with the same result in both trees.** -/
theorem SameBut.readText_eq_of_mem_discover (h : SameBut hidden t t') (ht : t.IsProper)
    (hdir : dir.isAbsolute = true) (hfound : t.FindsNone hidden spec dir) {paths : List Path}
    (hpaths : t.discover spec dir = .ok paths) {p : Path} (hp : p ∈ paths) :
    t'.readText p = t.readText p := by
  have habs := Target.isAbsolute_root (Target.ofSpec spec) hdir
  rcases cases_of_mem_discover hpaths hp with
    ⟨text, hfile, rfl⟩ | ⟨entries, names, hroot, hnames, rfl⟩
  · rcases h.lookup_cases (hfound paths hpaths _ hp) with hsame | ⟨-, ⟨e, he⟩, -⟩
    · exact readText_of_glance hsame
    · cases he.symm.trans hfile
  · obtain ⟨entries', hroot'⟩ := h.exists_lookup_dir hroot
    obtain ⟨hproper, hpath, text, hfile, hfile'⟩ :=
      h.exists_of_mem_modelNames ht hdir hroot hroot' hfound hnames
    by_cases hnul : '\x00' ∈ (((Target.ofSpec spec).root dir).joinAll names).text.toList
    · have hjoin := Path.isAbsolute_joinAll habs names
      simp only [readText, lookup_of_isAbsolute hjoin, if_pos hnul]
    · simp only [readText, lookup_joinAll habs hroot hproper hpath hfile hnul,
        lookup_joinAll habs hroot' hproper hpath hfile' hnul]

end Discover

/-! ## Loading -/

theorem collect_congr {dir : Path} {specs : List String}
    (h : ∀ spec ∈ specs, t'.discover spec dir = t.discover spec dir) (files : FileSet) :
    t'.collect dir specs files = t.collect dir specs files := by
  induction specs generalizing files with
  | nil => rfl
  | cons spec specs ih =>
    rw [List.forall_mem_cons] at h
    rw [collect_cons, collect_cons, h.1]
    simp only [ih h.2]

theorem mergeFiles_congr {files : List Path}
    (h : ∀ p ∈ files, t'.readText p = t.readText p) (m : Model) :
    t'.mergeFiles m files = t.mergeFiles m files := by
  induction files generalizing m with
  | nil => rfl
  | cons p files ih =>
    rw [List.forall_mem_cons] at h
    have hload : t'.loadModel p = t.loadModel p := by rw [loadModel, loadModel, h.1]
    rw [mergeFiles, mergeFiles, hload]
    simp only [ih h.2]

/-- **Specifiers that name no hidden file in either tree load the same model.** -/
theorem SameBut.loadModels_eq (h : SameBut hidden t t') (ht : t.IsProper) (ht' : t'.IsProper)
    {dir : Path} (hdir : dir.isAbsolute = true) {specs : List String}
    (hfound : ∀ spec ∈ effectiveSpecs specs,
      t.FindsNone hidden spec dir ∧ t'.FindsNone hidden spec dir) :
    t'.loadModels specs dir = t.loadModels specs dir := by
  have hdiscover : ∀ spec ∈ effectiveSpecs specs, t'.discover spec dir = t.discover spec dir :=
    fun spec hspec => h.discover_eq ht ht' hdir (hfound spec hspec).1 (hfound spec hspec).2
  rw [loadModels, loadModels, collect_congr hdiscover]
  cases hcollect : t.collect dir (effectiveSpecs specs) .empty with
  | error e => rfl
  | ok files =>
    obtain ⟨found, hspecs, rfl⟩ := exists_of_collect hcollect
    refine mergeFiles_congr ?_ .empty
    intro p hp
    obtain ⟨spec, hspec, paths, hpaths, hmem⟩ :=
      exists_discover_of_mem hspecs ((firstSpellings_values found.flatten).mem_paths hp)
    exact h.readText_eq_of_mem_discover ht hdir (hfound spec hspec).1 hpaths hmem

end FileTree

end CallPolicy
