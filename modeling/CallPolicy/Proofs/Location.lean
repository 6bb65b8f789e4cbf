import CallPolicy.FileTree.Basic

/-!
# Where paths lead

A path says how to walk; where it leads is a list of names from the root of the tree.  Since there
are no links, a walk that succeeds ends where its names settle, each `..` taking back one of them.
Walking keeps a stack of the directories it came through, and the invariant of the walk is that this
stack is the one along the names so far.

Paths that differ in meaning may lead to one place, but only if one of them holds a `..`.

## Main statements

* `FileNode.Reached.walk` — a walk ends where its names settle.
* `FileTree.at?_join_of_lookup` — the same for looking up a path.
* `Path.components_join_of_ne`, `Path.components_join_entry` — joining adds components; an entry of
  a directory has one more.
* `FileTree.components_eq_of_parent_not_mem` — without `..`, a path means the names it stands for.
-/

namespace CallPolicy

/-! ## Components of segments -/

namespace Path

theorem componentsOf_nil : componentsOf [] = [] := rfl

theorem componentsOf_append (ss ts : List (List Char)) :
    componentsOf (ss ++ ts) = componentsOf ss ++ componentsOf ts := by
  simp [componentsOf]

theorem componentsOf_cons_of_isIdle {s : List Char} (h : isIdle s = true) (ss : List (List Char)) :
    componentsOf (s :: ss) = componentsOf ss := by
  simp [componentsOf, h]

theorem componentsOf_cons {s : List Char} (h : isIdle s = false) (ss : List (List Char)) :
    componentsOf (s :: ss) = Component.ofSegment s :: componentsOf ss := by
  simp [componentsOf, h]

end Path

/-! ## Walking -/

namespace FileNode

section

variable {ν : Type} [DecidableEq ν]

/-- The node with the given names from the root. -/
def at? : List ν → FileNode ν → Option (FileNode ν)
  | [], node => some node
  | _ :: _, .file _ => none
  | name :: names, .dir entries => (Entries.find? name entries).bind (at? names)

theorem at?_append (names more : List ν) (node : FileNode ν) :
    at? (names ++ more) node = (at? names node).bind (at? more) := by
  induction names generalizing node with
  | nil => rfl
  | cons name names ih =>
    cases node with
    | file text => rfl
    | dir entries =>
      rw [List.cons_append, at?, at?, Option.bind_assoc]
      exact congrArg _ (funext ih)

/-- An entry of a directory has one name more. -/
theorem at?_append_singleton {names : List ν} {root : FileNode ν} {entries : List (ν × FileNode ν)}
    (h : at? names root = some (.dir entries)) (name : ν) :
    at? (names ++ [name]) root = Entries.find? name entries := by
  rw [at?_append, h, Option.bind_some, at?]
  cases Entries.find? name entries <;> rfl

/-- What holds of a directory and passes on to its entries holds of all that is below it. -/
theorem forall_at? {P : FileNode ν → Prop}
    (hentry : ∀ entries name child, P (.dir entries) → Entries.find? name entries = some child →
      P child) {names : List ν} {root node : FileNode ν} (hroot : P root)
    (hat : at? names root = some node) : P node := by
  induction names generalizing root with
  | nil =>
    cases hat
    exact hroot
  | cons name names ih =>
    cases root with
    | file text => cases hat
    | dir entries =>
      obtain ⟨child, hchild, hnode⟩ := Option.bind_eq_some_iff.1 hat
      exact ih (hentry entries name child hroot hchild) hnode

variable [FileName ν]

theorem walk_of_isIdle {s : List Char} (h : Path.isIdle s = true) (up : List (FileNode ν))
    (entries : List (ν × FileNode ν)) (rest : List (List Char)) :
    walk up (.dir entries) (s :: rest) = walk up (.dir entries) rest :=
  if_pos h

theorem walk_parent_nil (entries : List (ν × FileNode ν)) (rest : List (List Char)) :
    walk [] (.dir entries) (['.', '.'] :: rest) = walk [] (.dir entries) rest := rfl

theorem walk_parent_cons (parent : FileNode ν) (up : List (FileNode ν))
    (entries : List (ν × FileNode ν)) (rest : List (List Char)) :
    walk (parent :: up) (.dir entries) (['.', '.'] :: rest) = walk up parent rest := rfl

theorem walk_name {s : List Char} (hidle : Path.isIdle s = false) (hparent : s ≠ ['.', '.'])
    (up : List (FileNode ν)) (entries : List (ν × FileNode ν)) (rest : List (List Char)) :
    walk up (.dir entries) (s :: rest) =
      match Entries.find? (FileName.ofText (String.ofList s)) entries with
      | none => .error .notFound
      | some child => walk (.dir entries :: up) child rest :=
  (if_neg (Bool.eq_false_iff.1 hidle)).trans (if_neg hparent)

/-- What holds of the directories on the way, and passes on to entries, holds where a walk ends. -/
theorem forall_walk {P : FileNode ν → Prop}
    (hentry : ∀ entries name child, P (.dir entries) → Entries.find? name entries = some child →
      P child) {up : List (FileNode ν)} {here node : FileNode ν} {segments : List (List Char)}
    (hup : ∀ above ∈ up, P above) (hhere : P here) (h : walk up here segments = .ok node) :
    P node := by
  fun_induction walk up here segments with
  | case1 =>
    cases h
    exact hhere
  | case2 => cases h
  | case3 up entries s rest hidle ih => exact ih hup hhere h
  | case4 entries rest hstep ih => exact ih hup hhere h
  | case5 entries rest parent up hstep ih =>
    rw [List.forall_mem_cons] at hup
    exact ih hup.2 hup.1 h
  | case6 => cases h
  | case7 up entries s rest hstep hparent child hchild ih =>
    exact ih (List.forall_mem_cons.2 ⟨hhere, hup⟩) (hentry entries _ child hhere hchild) h

end

/-- The node `here` has the given names from the root, and `up` are the directories on the way. -/
inductive Reached (root : FileNode) : List String → List FileNode → FileNode → Prop
  | start : Reached root [] [] root
  | enter {names up entries name child} (h : Reached root names up (.dir entries))
    (hchild : Entries.find? name entries = some child) :
    Reached root (names ++ [name]) (.dir entries :: up) child

variable {root here node : FileNode} {names : List String} {up : List FileNode}

theorem Reached.at?_eq (h : Reached root names up here) : at? names root = some here := by
  induction h with
  | start => rfl
  | enter _ hchild ih => rw [at?_append_singleton ih, hchild]

theorem Reached.names_eq_nil (h : Reached root names [] here) : names = [] := by
  cases h
  rfl

/-- Going up takes back the last name. -/
theorem Reached.leave {parent : FileNode} (h : Reached root names (parent :: up) here) :
    Reached root names.dropLast up parent := by
  cases h with
  | enter hparent _ => rwa [List.dropLast_concat]

/-- **A walk ends where its names settle.** -/
theorem Reached.walk {segments : List (List Char)} (h : Reached root names up here)
    (hwalk : FileNode.walk up here segments = .ok node) :
    ∃ up', Reached root (FileTree.settle names (Path.componentsOf segments)) up' node := by
  fun_induction FileNode.walk up here segments generalizing names with
  | case1 up here =>
    cases hwalk
    exact ⟨up, h⟩
  | case2 => cases hwalk
  | case3 up entries s rest hidle ih =>
    rw [Path.componentsOf_cons_of_isIdle hidle]
    exact ih h hwalk
  | case4 entries rest hstep ih =>
    -- at the root there is no name to take back, and the walk stays there
    obtain rfl := h.names_eq_nil
    exact ih h hwalk
  | case5 entries rest parent up hstep ih => exact ih h.leave hwalk
  | case6 => cases hwalk
  | case7 up entries s rest hstep hparent child hchild ih =>
    rw [Path.componentsOf_cons (Bool.eq_false_iff.2 hstep), Path.Component.ofSegment,
      if_neg hparent, FileTree.settle]
    exact ih (.enter h hchild) hwalk

end FileNode

namespace FileTree

/-- How a path begins has no part in where it leads. -/
theorem namesOf_eq (p : Path) : namesOf p = settle [] (Path.componentsOf p.segments) := by
  unfold namesOf Path.components
  cases p.anchor <;> rfl

section

variable {ν : Type} [DecidableEq ν] [FileName ν] {t : FileTree ν} {p : Path} {node : FileNode ν}

theorem lookup_eq_ok_iff :
    t.lookup p = .ok node ↔ p.text ≠ "" ∧ '\x00' ∉ p.text.toList ∧
      FileNode.walk [] t.root (t.workingDir.join p).segments = .ok node := by
  unfold lookup
  by_cases hempty : p.text = ""
  · simp [hempty]
  · by_cases hnul : '\x00' ∈ p.text.toList <;> simp [hempty, hnul]

/-- What holds of the root and passes on to entries holds wherever a path leads. -/
theorem forall_lookup {P : FileNode ν → Prop}
    (hentry : ∀ entries name child, P (.dir entries) → Entries.find? name entries = some child →
      P child) (hroot : P t.root) (h : t.lookup p = .ok node) : P node := by
  obtain ⟨-, -, hwalk⟩ := lookup_eq_ok_iff.1 h
  exact FileNode.forall_walk hentry (List.forall_mem_nil _) hroot hwalk

end

variable {t : FileTree} {p : Path} {node : FileNode}

/-- **A path leads where its names settle,** seen from the working directory. -/
theorem at?_join_of_lookup (h : t.lookup p = .ok node) :
    t.root.at? (namesOf (t.workingDir.join p)) = some node := by
  obtain ⟨-, -, hwalk⟩ := lookup_eq_ok_iff.1 h
  obtain ⟨up, hreached⟩ := FileNode.Reached.walk .start hwalk
  rw [namesOf_eq]
  exact hreached.at?_eq

theorem at?_of_lookup (habs : p.isAbsolute = true) (h : t.lookup p = .ok node) :
    t.root.at? (namesOf p) = some node := by
  have hjoin : t.workingDir.join p = p := if_pos habs
  rw [← hjoin]
  exact at?_join_of_lookup h

end FileTree

/-! ## Entries of directories -/

namespace Text

theorem split_append_sep (sep : Char) (text rest : List Char) :
    split sep (text ++ sep :: rest) = split sep text ++ split sep rest := by
  induction text with
  | nil => simp [split]
  | cons c text ih =>
    cases hpieces : split sep text with
    | nil => exact absurd hpieces (split_ne_nil sep text)
    | cons piece pieces => by_cases hc : c = sep <;> simp [split, hc, ih, hpieces]

theorem split_of_not_mem {sep : Char} {text : List Char} (h : sep ∉ text) :
    split sep text = [text] := by
  induction text with
  | nil => rfl
  | cons c text ih =>
    rw [List.mem_cons, not_or] at h
    simp [split, Ne.symm h.1, ih h.2]

end Text

namespace Path

/-- The text can name an entry of a directory. -/
def isEntryName (name : String) : Bool :=
  !isIdle name.toList && name.toList != ['.', '.'] && !name.toList.contains '/'

theorem isEntryName_iff {name : String} :
    isEntryName name = true ↔
      isIdle name.toList = false ∧ name.toList ≠ ['.', '.'] ∧ '/' ∉ name.toList := by
  simp [isEntryName, and_assoc]

/-- A slash at the end of a text adds no component. -/
theorem componentsOf_split_append_slash (text : List Char) :
    componentsOf (Text.split '/' (text ++ ['/'])) = componentsOf (Text.split '/' text) := by
  rw [Text.split_append_sep, componentsOf_append]
  exact List.append_nil _

/-- A name stands for itself. -/
theorem componentsOf_split_name {name : String} (h : isEntryName name = true) :
    componentsOf (Text.split '/' name.toList) = [.name name] := by
  obtain ⟨hidle, hparent, hslash⟩ := isEntryName_iff.1 h
  rw [Text.split_of_not_mem hslash, componentsOf_cons hidle, componentsOf_nil,
    Component.ofSegment, if_neg hparent, String.ofList_toList]

theorem isAbsolute_iff {p : Path} : p.isAbsolute = true ↔ ∃ rest, p.text.toList = '/' :: rest := by
  unfold isAbsolute
  cases p.text.toList <;> simp

/-- The segments of the whole text mean the same as those after the anchor. -/
theorem componentsOf_segments (p : Path) :
    componentsOf p.segments = componentsOf (Text.split '/' p.text.toList) := by
  unfold segments
  fun_cases cutAnchor p.text.toList with
  | case1 rest => exact (componentsOf_cons_of_isIdle rfl (Text.split '/' rest)).symm
  | case2 => rfl
  | case3 rest => rfl
  | case4 => rfl

theorem components_eq_anchor_append (p : Path) :
    p.components = p.anchor.components ++ componentsOf (Text.split '/' p.text.toList) := by
  rw [components, componentsOf_segments]

theorem components_of_isAbsolute {p : Path} (h : p.isAbsolute = true) :
    p.components = .root :: componentsOf (Text.split '/' p.text.toList) := by
  obtain ⟨rest, hrest⟩ := isAbsolute_iff.1 h
  rw [components_eq_anchor_append, anchor, hrest]
  rfl

theorem text_ne_of_isAbsolute {p : Path} (h : p.isAbsolute = true) : p.text ≠ "" := by
  obtain ⟨rest, hrest⟩ := isAbsolute_iff.1 h
  intro hempty
  rw [hempty] at hrest
  cases hrest

/-- What is joined to an absolute path is absolute. -/
theorem isAbsolute_join {p : Path} (h : p.isAbsolute = true) (q : Path) :
    (p.join q).isAbsolute = true := by
  obtain ⟨rest, hrest⟩ := isAbsolute_iff.1 h
  unfold join
  split
  · assumption
  · split <;> simp [isAbsolute, hrest]

theorem join_of_isAbsolute {q : Path} (hq : q.isAbsolute = true) (p : Path) : p.join q = q :=
  if_pos hq

/-- Nothing needs to stand between the path and a name that follows it. -/
def isOpen (p : Path) : Bool :=
  p.text.isEmpty || p.text.toList.getLast? == some '/'

theorem join_of_relative {q : Path} (hq : q.isAbsolute = false) (p : Path) :
    p.join q = ⟨p.text ++ (if p.isOpen then "" else "/") ++ q.text⟩ := by
  rw [join, if_neg (Bool.eq_false_iff.1 hq), ← isOpen]
  split <;> simp

theorem isAbsolute_join_of_relative {p q : Path} (hp : p.isAbsolute = false)
    (hq : q.isAbsolute = false) : (p.join q).isAbsolute = false := by
  rw [join_of_relative hq]
  cases htext : p.text.toList with
  | nil =>
    have hempty : p.text = "" := String.toList_eq_nil_iff.1 htext
    simpa [isOpen, hempty] using hq
  | cons c rest => simpa [isAbsolute, htext] using hp

theorem isOpen_join {p q : Path} (hq : q.isAbsolute = false) : (p.join q).isOpen = q.isOpen := by
  rw [join_of_relative hq]
  by_cases hempty : q.text = ""
  · by_cases hopen : p.isOpen = true
    · rw [if_pos hopen, hempty, String.append_empty, String.append_empty, hopen]
      simp [isOpen, hempty]
    · rw [if_neg hopen]
      simp [isOpen, hempty]
  · have hlast : q.text.toList ≠ [] := fun h => hempty (String.toList_eq_nil_iff.1 h)
    obtain ⟨front, c, hfront⟩ := List.eq_nil_or_concat q.text.toList |>.resolve_left hlast
    have hmore : ∀ text : String, (text ++ q.text).isEmpty = false := by
      intro text
      simp [Bool.eq_false_iff, String.isEmpty_iff, hempty]
    have hself : q.text.isEmpty = false := by simpa using hmore ""
    simp [isOpen, hmore, hself, hfront]

/-- Joining is associative. -/
theorem join_assoc (p q r : Path) : p.join (q.join r) = (p.join q).join r := by
  by_cases hr : r.isAbsolute = true
  · simp only [join_of_isAbsolute hr]
  · by_cases hq : q.isAbsolute = true
    · rw [join_of_isAbsolute (isAbsolute_join hq r), join_of_isAbsolute hq]
    · rw [Bool.not_eq_true] at hr hq
      rw [join_of_relative (isAbsolute_join_of_relative hq hr), join_of_relative hr (p.join q),
        isOpen_join hq, join_of_relative hr, join_of_relative hq]
      simp [String.append_assoc]

/-- What follows a text does not change how it begins, unless it goes on with a lone `.`. -/
theorem cutAnchor_append {text : List Char} (hne : text ≠ []) {more : List Char}
    (hdot : text = ['.'] → ∃ rest, more = '/' :: rest) :
    (cutAnchor (text ++ more)).1 = (cutAnchor text).1 := by
  fun_cases cutAnchor text with
  | case1 rest => rfl
  | case2 =>
    obtain ⟨rest, rfl⟩ := hdot rfl
    rfl
  | case3 rest => rfl
  | case4 text hroot hlone hcurrent =>
    obtain _ | ⟨c, text⟩ := text
    · exact absurd rfl hne
    · have hslash : c ≠ '/' := fun h => hroot text (by rw [h])
      by_cases hc : c = '.'
      · subst hc
        cases text with
        | nil => exact absurd rfl hlone
        | cons d rest =>
          have hd : d ≠ '/' := fun h => hcurrent rest (by rw [h])
          simp [cutAnchor, hd]
      · simp [cutAnchor, hslash, hc]

/-- What is joined to a path does not change how it begins. -/
theorem anchor_join {p q : Path} (hp : p.text ≠ "") (hq : q.isAbsolute = false) :
    (p.join q).anchor = p.anchor := by
  have hne : p.text.toList ≠ [] := fun h => hp (String.toList_eq_nil_iff.1 h)
  rw [join_of_relative hq, anchor, anchor, String.toList_append, String.toList_append,
    List.append_assoc]
  refine cutAnchor_append hne ?_
  intro hdot
  have hopen : p.isOpen = false := by simp [isOpen, hp, hdot]
  exact ⟨q.text.toList, by simp [hopen]⟩

theorem text_join_ne {p q : Path} (hp : p.text ≠ "") (hq : q.isAbsolute = false) :
    (p.join q).text ≠ "" := by
  rw [join_of_relative hq]
  simp [hp]

/-- The segments of what is joined are those of the two. -/
theorem componentsOf_split_join (p : Path) {q : Path} (hq : q.isAbsolute = false) :
    componentsOf (Text.split '/' (p.join q).text.toList) =
      componentsOf (Text.split '/' p.text.toList) ++
        componentsOf (Text.split '/' q.text.toList) := by
  rw [join, if_neg (Bool.eq_false_iff.1 hq)]
  split
  · rename_i hopen
    rw [Bool.or_eq_true, String.isEmpty_iff, beq_iff_eq] at hopen
    rcases hopen with hempty | hlast
    · rw [hempty, String.empty_append]
      rfl
    · obtain ⟨front, hfront⟩ := List.getLast?_eq_some_iff.1 hlast
      rw [String.toList_append, hfront, List.append_assoc, List.singleton_append,
        Text.split_append_sep, componentsOf_append, componentsOf_split_append_slash]
  · rw [← componentsOf_append, ← Text.split_append_sep]
    simp

/-- **What is joined to a path adds its components.**  A leading `.` adds none. -/
theorem components_join_of_ne {p q : Path} (hp : p.text ≠ "") (hq : q.isAbsolute = false) :
    (p.join q).components = p.components ++ componentsOf (Text.split '/' q.text.toList) := by
  rw [components_eq_anchor_append, components_eq_anchor_append p, anchor_join hp hq,
    componentsOf_split_join p hq, List.append_assoc]

theorem components_join {p q : Path} (hp : p.isAbsolute = true) (hq : q.isAbsolute = false) :
    (p.join q).components = p.components ++ componentsOf (Text.split '/' q.text.toList) :=
  components_join_of_ne (text_ne_of_isAbsolute hp) hq

theorem isAbsolute_of_isEntryName {name : String} (hname : isEntryName name = true) :
    (⟨name⟩ : Path).isAbsolute = false := by
  rw [Bool.eq_false_iff, Ne, isAbsolute_iff]
  rintro ⟨rest, hrest⟩
  exact (isEntryName_iff.1 hname).2.2 (hrest ▸ List.mem_cons_self)

/-- **An entry of a directory has one component more.** -/
theorem components_join_entry {p : Path} {name : String} (hp : p.text ≠ "")
    (hname : isEntryName name = true) :
    (p.join ⟨name⟩).components = p.components ++ [.name name] := by
  rw [components_join_of_ne hp (isAbsolute_of_isEntryName hname), componentsOf_split_name hname]

/-! ## Paths without `..` -/

/-- Segments without `..` are names. -/
theorem exists_componentsOf_eq {segments : List (List Char)}
    (h : .parent ∉ componentsOf segments) :
    ∃ names : List String, componentsOf segments = names.map .name := by
  induction segments with
  | nil => exact ⟨[], rfl⟩
  | cons s rest ih =>
    by_cases hidle : isIdle s = true
    · rw [componentsOf_cons_of_isIdle hidle] at h ⊢
      exact ih h
    · rw [componentsOf_cons (Bool.eq_false_iff.2 hidle), List.mem_cons, not_or] at h
      obtain ⟨names, hnames⟩ := ih h.2
      have hs : s ≠ ['.', '.'] := fun hs => h.1 (by rw [Component.ofSegment, if_pos hs])
      refine ⟨String.ofList s :: names, ?_⟩
      rw [componentsOf_cons (Bool.eq_false_iff.2 hidle), hnames, Component.ofSegment, if_neg hs]
      rfl

end Path

namespace FileTree

theorem settle_map_name (names more : List String) :
    settle names (more.map .name) = names ++ more := by
  induction more generalizing names with
  | nil => simp [settle]
  | cons name more ih => simp [settle, ih]

/-- **Without `..`, an absolute path means the names it stands for.** -/
theorem components_eq_of_parent_not_mem {p : Path} (hp : p.isAbsolute = true)
    (h : .parent ∉ p.components) : p.components = .root :: (namesOf p).map .name := by
  rw [Path.components_of_isAbsolute hp, List.mem_cons, not_or] at h
  obtain ⟨names, hnames⟩ := Path.exists_componentsOf_eq h.2
  have hsettled : namesOf p = names := by
    rw [namesOf, Path.components_of_isAbsolute hp, hnames, settle, settle_map_name]
    · rfl
    · simp
    · simp
  rw [Path.components_of_isAbsolute hp, hnames, hsettled]

end FileTree

end CallPolicy
