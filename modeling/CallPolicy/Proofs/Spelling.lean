import CallPolicy.Proofs.Discovery
import Mathlib.Data.List.TakeWhile

/-!
# Spellings of a path

Repeated slashes and `.` segments change how a path is written and not what it means.  They change
nothing of where it leads either, with one exception: with a slash or a `.` at its end, a path can
only lead to a directory.  A path that was found as that of a model file ends in a name, so what is
read from it depends on its components alone; and so does the meaning of its directory, and of the
paths that are seen from there.

## Main statements

* `FileTree.lookup_congr` — where paths that end in names lead depends on their components.
* `FileTree.isFilePath_of_mem_discover` — a search finds paths that end in names.
* `FileTree.lookup_joinAll` — what is found below a directory is where its path leads.
* `Path.components_parent?` — the directory of a path has one component less.
* `Path.components_rebase` — what is seen from a directory depends on the components of both.
-/

namespace CallPolicy

/-! ## Pieces of a text -/

namespace Text

theorem split_cons_of_ne {sep c : Char} (hc : c ≠ sep) (text : List Char) :
    ∃ piece pieces, split sep text = piece :: pieces ∧
      split sep (c :: text) = (c :: piece) :: pieces := by
  cases h : split sep text with
  | nil => exact absurd h (split_ne_nil sep text)
  | cons piece pieces => exact ⟨piece, pieces, rfl, by simp [split, hc, h]⟩

/-- No piece holds a separator. -/
theorem not_mem_of_mem_split {sep : Char} {text piece : List Char} (h : piece ∈ split sep text) :
    sep ∉ piece := by
  induction text generalizing piece with
  | nil =>
    rw [split, List.mem_singleton] at h
    exact h ▸ List.not_mem_nil
  | cons c text ih =>
    by_cases hc : c = sep
    · rw [split, if_pos hc, List.mem_cons] at h
      rcases h with rfl | h
      · exact List.not_mem_nil
      · exact ih h
    · obtain ⟨first, pieces, hsplit, hcons⟩ := split_cons_of_ne hc text
      rw [hcons, List.mem_cons] at h
      rcases h with rfl | h
      · have hfirst : sep ∉ first := ih (hsplit ▸ List.mem_cons_self)
        simp [Ne.symm hc, hfirst]
      · exact ih (hsplit ▸ List.mem_cons_of_mem _ h)

/-- Pieces without separators are found again. -/
theorem split_join {sep : Char} {pieces : List (List Char)} (hne : pieces ≠ [])
    (h : ∀ piece ∈ pieces, sep ∉ piece) : split sep (join sep pieces) = pieces := by
  fun_induction join sep pieces with
  | case1 => exact absurd rfl hne
  | case2 piece => exact split_of_not_mem (h piece List.mem_cons_self)
  | case3 piece next pieces ih =>
    rw [List.forall_mem_cons] at h
    rw [split_append_sep, split_of_not_mem h.1, ih (List.cons_ne_nil _ _) h.2]
    rfl

/-- A character other than the separator stands in one of the pieces. -/
theorem mem_iff_exists_mem_split {sep x : Char} (hx : x ≠ sep) (text : List Char) :
    x ∈ text ↔ ∃ piece ∈ split sep text, x ∈ piece := by
  induction text with
  | nil => simp [split]
  | cons c text ih =>
    by_cases hc : c = sep
    · have hne : x ≠ c := fun h => hx (h.trans hc)
      simp [split, hc, ih, hx]
    · obtain ⟨first, pieces, hsplit, hcons⟩ := split_cons_of_ne hc text
      rw [List.mem_cons, ih, hsplit, hcons]
      simp [or_assoc]

/-- What holds no separator extends the last piece. -/
theorem exists_split_append {sep : Char} {mark : List Char} (h : sep ∉ mark) (text : List Char) :
    ∃ pieces last, split sep (text ++ mark) = pieces ++ [last ++ mark] := by
  induction text with
  | nil => exact ⟨[], [], split_of_not_mem h⟩
  | cons c text ih =>
    obtain ⟨pieces, last, hsplit⟩ := ih
    by_cases hc : c = sep
    · refine ⟨[] :: pieces, last, ?_⟩
      rw [List.cons_append, split, if_pos hc, hsplit]
      rfl
    · obtain ⟨first, others, hfirst, hcons⟩ := split_cons_of_ne hc (text ++ mark)
      rw [List.cons_append, hcons]
      rw [hsplit] at hfirst
      cases pieces with
      | nil =>
        cases hfirst
        exact ⟨[], c :: last, rfl⟩
      | cons piece pieces =>
        obtain ⟨rfl, rfl⟩ := List.cons.inj hfirst
        exact ⟨(c :: piece) :: pieces, last, rfl⟩

end Text

namespace Path

/-! ## Segments with a meaning -/

/-- The segments that are not idle. -/
def steps (p : Path) : List (List Char) :=
  p.segments.filter fun s => !isIdle s

theorem ofSegment_injective : Function.Injective Component.ofSegment := by
  intro s s' h
  unfold Component.ofSegment at h
  split at h <;> split at h
  · simp_all
  · cases h
  · cases h
  · exact String.ofList_injective (Component.name.inj h)

theorem text_of_isAbsolute {p : Path} (h : p.isAbsolute = true) :
    p.anchor = .root ∧ p.text.toList = '/' :: Text.join '/' p.segments := by
  obtain ⟨rest, hrest⟩ := isAbsolute_iff.1 h
  rw [anchor, segments, hrest]
  exact ⟨rfl, congrArg _ (Text.join_split '/' rest).symm⟩

/-- An absolute path means the root and its segments. -/
theorem components_eq_root_cons {p : Path} (h : p.isAbsolute = true) :
    p.components = .root :: componentsOf p.segments := by
  rw [components, (text_of_isAbsolute h).1]
  rfl

/-- The component is one that a path can only begin with. -/
def Component.isLead : Component → Bool
  | .root | .current => true
  | .parent | .name _ => false

theorem filter_isLead_components (p : Path) :
    p.components.filter Component.isLead = p.anchor.components := by
  have hsegments : (componentsOf p.segments).filter Component.isLead = [] := by
    rw [List.filter_eq_nil_iff]
    intro c hc
    obtain ⟨s, -, rfl⟩ := List.mem_map.1 hc
    unfold Component.ofSegment
    split <;> simp [Component.isLead]
  rw [components, List.filter_append, hsegments, List.append_nil]
  cases p.anchor <;> rfl

theorem Anchor.components_injective : Function.Injective Anchor.components := by
  intro x y h
  cases x <;> cases y <;> simp_all [Anchor.components]

/-- Paths of one meaning begin alike. -/
theorem anchor_eq_of_components_eq {p q : Path} (h : p.components = q.components) :
    p.anchor = q.anchor := by
  refine Anchor.components_injective ?_
  rw [← filter_isLead_components, h, filter_isLead_components]

/-- Paths of one meaning have the same segments but for idle ones. -/
theorem steps_eq_of_components_eq {p q : Path} (h : p.components = q.components) :
    p.steps = q.steps := by
  rw [components, components, anchor_eq_of_components_eq h, List.append_cancel_left_eq] at h
  exact List.map_injective_iff.2 ofSegment_injective h

/-- A character that no idle segment holds stands in one of the others. -/
theorem mem_text_iff_exists_mem_steps (p : Path) {x : Char} (hslash : x ≠ '/') (hdot : x ≠ '.') :
    x ∈ p.text.toList ↔ ∃ s ∈ p.steps, x ∈ s := by
  have hidle : ∀ s, x ∈ s → isIdle s = false := by
    intro s hs
    rw [Bool.eq_false_iff]
    intro h
    rw [isIdle, Bool.or_eq_true, List.isEmpty_iff, beq_iff_eq] at h
    rcases h with rfl | rfl
    · cases hs
    · exact hdot (List.mem_singleton.1 hs)
  have hanchor : x ∉ (cutAnchor p.text.toList).1.chars := by
    cases (cutAnchor p.text.toList).1 <;> simp [Anchor.chars, hslash, hdot]
  rw [← chars_cutAnchor p.text.toList, List.mem_append, or_iff_right hanchor,
    Text.mem_iff_exists_mem_split hslash]
  constructor
  · rintro ⟨s, hs, hx⟩
    exact ⟨s, List.mem_filter.2 ⟨hs, by rw [hidle s hx]; rfl⟩, hx⟩
  · rintro ⟨s, hs, hx⟩
    exact ⟨s, (List.mem_filter.1 hs).1, hx⟩

/-- The path is absolute, and no slash or `.` follows its last component. -/
structure IsFilePath (p : Path) : Prop where
  absolute : p.isAbsolute = true
  ended : ∀ s ∈ p.segments.getLast?, isIdle s = false

/-- A path ends in a name if it ends in two characters or more that hold no slash. -/
theorem isFilePath_of_text {p : Path} {front mark : List Char} (hp : p.isAbsolute = true)
    (hmark : '/' ∉ mark) (hlong : 2 ≤ mark.length) (h : p.text.toList = front ++ mark) :
    p.IsFilePath := by
  refine ⟨hp, ?_⟩
  obtain ⟨rest, hrest⟩ := isAbsolute_iff.1 hp
  have hsegments : p.segments = Text.split '/' rest := by
    rw [segments, hrest]
    rfl
  rw [h] at hrest
  cases front with
  | nil =>
    rw [List.nil_append] at hrest
    exact absurd (hrest ▸ List.mem_cons_self) hmark
  | cons c front =>
    obtain ⟨-, hrest⟩ := List.cons.inj hrest
    obtain ⟨pieces, last, hsplit⟩ := Text.exists_split_append hmark front
    rw [hsegments, ← hrest]
    show ∀ s ∈ (Text.split '/' (front ++ mark)).getLast?, isIdle s = false
    rw [hsplit, List.getLast?_concat]
    rintro s ⟨rfl⟩
    rw [Bool.eq_false_iff]
    intro hidle
    rw [isIdle, Bool.or_eq_true, List.isEmpty_iff, beq_iff_eq] at hidle
    have hlength : (last ++ mark).length ≤ 1 := by
      rcases hidle with hidle | hidle <;> rw [hidle] <;> decide
    rw [List.length_append] at hlength
    omega

/-- The path of a model file ends in its name. -/
theorem isFilePath_join {p : Path} {name : String} (hp : p.isAbsolute = true)
    (hname : isModelName name = true) : (p.join ⟨name⟩).IsFilePath := by
  obtain ⟨front, hfront⟩ : ∃ front, name.toList = front ++ modelSuffix.toList := by
    have htext : isModelText name = true := hname
    unfold isModelText at htext
    split at htext
    · rename_i first rest hbefore
      exact ⟨first :: rest, Text.before?_eq_some_iff.1 hbefore⟩
    · cases htext
  have htext : ∃ before, (p.join ⟨name⟩).text.toList = before ++ modelSuffix.toList := by
    unfold join
    split
    · exact ⟨front, hfront⟩
    · split
      · exact ⟨p.text.toList ++ front, by simp [hfront]⟩
      · exact ⟨p.text.toList ++ '/' :: front, by simp [hfront]⟩
  obtain ⟨before, hbefore⟩ := htext
  exact isFilePath_of_text (isAbsolute_join hp _) (by decide) (by decide) hbefore

theorem isFilePath_joinAll {p : Path} {deep : Bool} {names : List String}
    (hp : p.isAbsolute = true) (h : isModelPath deep names = true) :
    (p.joinAll names).IsFilePath := by
  obtain ⟨dirs, name, rfl, hname⟩ := exists_of_isModelPath h
  rw [joinAll_concat]
  exact isFilePath_join (isAbsolute_joinAll hp dirs) hname

/-- Each name adds one segment. -/
theorem steps_joinAll {p : Path} {names : List String} (hp : p.isAbsolute = true)
    (hnames : ∀ name ∈ names, isEntryName name = true) :
    (p.joinAll names).steps = p.steps ++ names.map String.toList := by
  have hcomponents := components_joinAll hp hnames
  have hsegments : names.map Component.name =
      (names.map String.toList).map Component.ofSegment := by
    rw [List.map_map]
    refine List.map_congr_left ?_
    intro name hname
    rw [Function.comp_apply, Component.ofSegment,
      if_neg (isEntryName_iff.1 (hnames name hname)).2.1, String.ofList_toList]
  rw [components_eq_root_cons hp, components_eq_root_cons (isAbsolute_joinAll hp names),
    List.cons_append, List.cons.injEq, hsegments] at hcomponents
  refine List.map_injective_iff.2 ofSegment_injective ?_
  rw [List.map_append]
  exact hcomponents.2

/-! ## Directories of paths -/

/-- Only idle segments are cut off. -/
theorem exists_eq_trimIdleEnd_append (ss : List (List Char)) :
    ∃ idle, (∀ s ∈ idle, isIdle s = true) ∧ ss = trimIdleEnd ss ++ idle := by
  refine ⟨(ss.reverse.takeWhile isIdle).reverse, ?_, ?_⟩
  · intro s hs
    exact List.mem_takeWhile_imp (List.mem_reverse.1 hs)
  · rw [trimIdleEnd, ← List.reverse_append, List.takeWhile_append_dropWhile, List.reverse_reverse]

theorem componentsOf_eq_nil {ss : List (List Char)} (h : ∀ s ∈ ss, isIdle s = true) :
    componentsOf ss = [] := by
  rw [componentsOf, List.map_eq_nil_iff, List.filter_eq_nil_iff]
  intro s hs
  simp [h s hs]

theorem componentsOf_trimIdleEnd (ss : List (List Char)) :
    componentsOf (trimIdleEnd ss) = componentsOf ss := by
  obtain ⟨idle, hidle, hss⟩ := exists_eq_trimIdleEnd_append ss
  conv_rhs => rw [hss, componentsOf_append, componentsOf_eq_nil hidle, List.append_nil]

theorem isAbsolute_ofParts (ss : List (List Char)) : (ofParts .root ss).isAbsolute = true := by
  rw [isAbsolute_iff]
  exact ⟨Text.join '/' ss, by simp [ofParts, Anchor.chars]⟩

/-- A path that is put together from segments means these. -/
theorem components_ofParts {ss : List (List Char)} (h : ∀ s ∈ ss, '/' ∉ s) :
    (ofParts .root ss).components = .root :: componentsOf ss := by
  have hsegments : (ofParts .root ss).segments = Text.split '/' (Text.join '/' ss) := by
    simp [segments, ofParts, Anchor.chars, cutAnchor]
  rw [components_eq_root_cons (isAbsolute_ofParts ss), hsegments]
  by_cases hss : ss = []
  · subst hss
    rfl
  · rw [Text.split_join hss h]

/-- **The directory of an absolute path has one component less;** only the root has none. -/
theorem components_parent? {p : Path} (hp : p.isAbsolute = true) :
    (p.components = [.root] ∧ p.parent? = none) ∨
      ∃ dir, p.parent? = some dir ∧ dir.isAbsolute = true ∧ p.components ≠ [.root] ∧
        dir.components = p.components.dropLast := by
  have hroot : p.anchor = .root := (text_of_isAbsolute hp).1
  obtain ⟨idle, hidle, hsegments⟩ := exists_eq_trimIdleEnd_append p.segments
  have hcomponents : p.components = .root :: componentsOf (trimIdleEnd p.segments) := by
    rw [components_eq_root_cons hp, componentsOf_trimIdleEnd]
  cases hrest : p.segments.reverse.dropWhile isIdle with
  | nil =>
    left
    refine ⟨?_, ?_⟩
    · rw [hcomponents, trimIdleEnd, hrest]
      rfl
    · rw [parent?, hrest, hroot]
      rfl
  | cons s rest =>
    right
    have hs : isIdle s = false := by
      have hhead := List.head?_dropWhile_not isIdle p.segments.reverse
      rw [hrest] at hhead
      simpa using hhead
    have htrimmed : trimIdleEnd p.segments = rest.reverse ++ [s] := by
      rw [trimIdleEnd, hrest, List.reverse_cons]
    have hcs : p.components = (.root :: componentsOf rest.reverse) ++ [Component.ofSegment s] := by
      rw [hcomponents, htrimmed, componentsOf_append, componentsOf_cons hs, componentsOf_nil]
      rfl
    have hslash : ∀ s ∈ trimIdleEnd rest.reverse, '/' ∉ s := by
      intro s' hs'
      obtain ⟨idle', -, htrim⟩ := exists_eq_trimIdleEnd_append rest.reverse
      have hmem : s' ∈ p.segments := by
        rw [hsegments, htrimmed, htrim]
        simp [hs']
      exact Text.not_mem_of_mem_split hmem
    refine ⟨ofParts .root (trimIdleEnd rest.reverse), ?_, isAbsolute_ofParts _, ?_, ?_⟩
    · rw [parent?, hrest, hroot]
    · rw [hcs]
      simp
    · rw [components_ofParts hslash, componentsOf_trimIdleEnd, hcs, List.dropLast_concat]

/-- **What is seen from a directory depends on the components of the two.** -/
theorem components_rebase {base base' : Path} (hbase : base.isAbsolute = true)
    (hbase' : base'.isAbsolute = true) (h : base.components = base'.components) (p : Path) :
    (rebase base p).components = (rebase base' p).components := by
  unfold rebase
  split
  · rfl
  · rename_i hrelative
    have hp : p.isAbsolute = false := Bool.eq_false_iff.2 hrelative
    rw [components_join hbase hp, components_join hbase' hp, h]

end Path

/-! ## Looking up -/

/-- What holds of the last element of a list. -/
theorem forall_mem_getLast?_cons {α : Type} {P : α → Prop} {x : α} {rest : List α} :
    (∀ y ∈ (x :: rest).getLast?, P y) ↔ (rest = [] → P x) ∧ ∀ y ∈ rest.getLast?, P y := by
  cases rest with
  | nil => simp
  | cons next rest => simp [List.getLast?_cons_cons]

namespace FileNode

/-- Idle segments make no difference to a walk, unless the last one is idle. -/
theorem walk_filter {segments : List (List Char)} (up : List FileNode) (here : FileNode)
    (h : ∀ s ∈ segments.getLast?, Path.isIdle s = false) :
    walk up here (segments.filter fun s => !Path.isIdle s) = walk up here segments := by
  fun_induction walk up here segments with
  | case1 => rfl
  | case2 up text s rest =>
    -- the last segment stays, so both walks go on from the file
    have hlast : (s :: rest).getLast (List.cons_ne_nil s rest) ∈
        (s :: rest).filter fun s => !Path.isIdle s := by
      refine List.mem_filter.2 ⟨List.getLast_mem _, ?_⟩
      rw [h _ (List.getLast?_eq_some_getLast _)]
      rfl
    cases hfilter : (s :: rest).filter fun s => !Path.isIdle s with
    | nil =>
      rw [hfilter] at hlast
      cases hlast
    | cons first others => rfl
  | case3 up entries s rest hidle ih =>
    rw [List.filter_cons_of_neg (by simp [hidle])]
    exact ih (forall_mem_getLast?_cons.1 h).2
  | case4 entries rest hstep ih =>
    rw [List.filter_cons_of_pos rfl, walk_parent_nil]
    exact ih (forall_mem_getLast?_cons.1 h).2
  | case5 entries rest parent up hstep ih =>
    rw [List.filter_cons_of_pos rfl, walk_parent_cons]
    exact ih (forall_mem_getLast?_cons.1 h).2
  | case6 up entries s rest hstep hparent hchild =>
    rw [List.filter_cons_of_pos (by simp [hstep]), walk_name (Bool.eq_false_iff.2 hstep) hparent,
      hchild]
  | case7 up entries s rest hstep hparent child hchild ih =>
    rw [List.filter_cons_of_pos (by simp [hstep]), walk_name (Bool.eq_false_iff.2 hstep) hparent,
      hchild]
    exact ih (forall_mem_getLast?_cons.1 h).2

/-- A walk that ends at a file does not end with an idle segment. -/
theorem forall_mem_getLast?_of_walk {segments : List (List Char)} {up : List FileNode}
    {here : FileNode} {text : Option String} (h : walk up here segments = .ok (.file text)) :
    ∀ s ∈ segments.getLast?, Path.isIdle s = false := by
  fun_induction walk up here segments with
  | case1 => exact fun s hs => absurd hs (Option.not_mem_none s)
  | case2 => cases h
  | case3 up entries s rest hidle ih =>
    refine forall_mem_getLast?_cons.2 ⟨?_, ih h⟩
    -- after an idle segment the walk is still at the directory
    rintro rfl
    cases h
  | case4 entries rest hstep ih => exact forall_mem_getLast?_cons.2 ⟨fun _ => rfl, ih h⟩
  | case5 entries rest parent up hstep ih => exact forall_mem_getLast?_cons.2 ⟨fun _ => rfl, ih h⟩
  | case6 => cases h
  | case7 up entries s rest hstep hparent child hchild ih =>
    exact forall_mem_getLast?_cons.2 ⟨fun _ => Bool.eq_false_iff.2 hstep, ih h⟩

/-- After a walk that succeeds one can walk on. -/
theorem exists_walk_append {up : List FileNode} {here node : FileNode} {ss : List (List Char)}
    (h : walk up here ss = .ok node) : ∃ up', ∀ ts, walk up here (ss ++ ts) = walk up' node ts := by
  fun_induction walk up here ss with
  | case1 up here =>
    cases h
    exact ⟨up, fun _ => rfl⟩
  | case2 => cases h
  | case3 up entries s rest hidle ih =>
    obtain ⟨up', hup'⟩ := ih h
    exact ⟨up', fun ts => (walk_of_isIdle hidle up entries (rest ++ ts)).trans (hup' ts)⟩
  | case4 entries rest hstep ih => exact ih h
  | case5 entries rest parent up hstep ih => exact ih h
  | case6 => cases h
  | case7 up entries s rest hstep hparent child hchild ih =>
    obtain ⟨up', hup'⟩ := ih h
    refine ⟨up', fun ts => ?_⟩
    rw [List.cons_append, walk_name (Bool.eq_false_iff.2 hstep) hparent, hchild]
    exact hup' ts

/-- A walk that succeeds also does without its idle segments. -/
theorem walk_filter_of_ok {up : List FileNode} {here node : FileNode} {ss : List (List Char)}
    (h : walk up here ss = .ok node) :
    walk up here (ss.filter fun s => !Path.isIdle s) = .ok node := by
  fun_induction walk up here ss with
  | case1 => exact h
  | case2 => cases h
  | case3 up entries s rest hidle ih =>
    rw [List.filter_cons_of_neg (by simp [hidle])]
    exact ih h
  | case4 entries rest hstep ih => exact ih h
  | case5 entries rest parent up hstep ih => exact ih h
  | case6 => cases h
  | case7 up entries s rest hstep hparent child hchild ih =>
    rw [List.filter_cons_of_pos (by simp [hstep]), walk_name (Bool.eq_false_iff.2 hstep) hparent,
      hchild]
    exact ih h

/-- The names of a node lead to it. -/
theorem walk_names {names : List String} {node target : FileNode}
    (hnames : ∀ name ∈ names, Path.isEntryName name = true) (hat : at? names node = some target)
    (up : List FileNode) : walk up node (names.map String.toList) = .ok target := by
  induction names generalizing node up with
  | nil =>
    cases hat
    rfl
  | cons name names ih =>
    cases node with
    | file text => cases hat
    | dir entries =>
      rw [List.forall_mem_cons] at hnames
      obtain ⟨hidle, hparent, -⟩ := Path.isEntryName_iff.1 hnames.1
      obtain ⟨child, hchild, hat⟩ := Option.bind_eq_some_iff.1 hat
      rw [List.map_cons, walk_name hidle hparent, String.ofList_toList, FileName.ofText_eq, hchild]
      exact ih hnames.2 hat _

end FileNode

namespace FileTree

variable {t : FileTree}

theorem lookup_of_isAbsolute {p : Path} (hp : p.isAbsolute = true) :
    t.lookup p =
      if '\x00' ∈ p.text.toList then .error .nulInName else FileNode.walk [] t.root p.segments := by
  have hempty : p.text.isEmpty = false := by
    rw [Bool.eq_false_iff, Ne, String.isEmpty_iff]
    exact Path.text_ne_of_isAbsolute hp
  have hjoin : t.workingDir.join p = p := if_pos hp
  rw [lookup, hempty, hjoin]
  rfl

/-- **Where paths that end in names lead depends on their components.** -/
theorem lookup_congr {p q : Path} (hp : p.IsFilePath) (hq : q.IsFilePath)
    (h : p.components = q.components) : t.lookup p = t.lookup q := by
  have hsteps : p.steps = q.steps := Path.steps_eq_of_components_eq h
  have hnul : '\x00' ∈ p.text.toList ↔ '\x00' ∈ q.text.toList := by
    rw [p.mem_text_iff_exists_mem_steps (by decide) (by decide),
      q.mem_text_iff_exists_mem_steps (by decide) (by decide), hsteps]
  rw [lookup_of_isAbsolute hp.absolute, lookup_of_isAbsolute hq.absolute,
    ← FileNode.walk_filter [] t.root hp.ended, ← FileNode.walk_filter [] t.root hq.ended]
  simp only [hnul]
  exact congrArg _ (congrArg _ hsteps)

/-- A path that leads to a file ends in its name. -/
theorem isFilePath_of_lookup {p : Path} {text : Option String} (hp : p.isAbsolute = true)
    (h : t.lookup p = .ok (.file text)) : p.IsFilePath := by
  rw [lookup_of_isAbsolute hp] at h
  split at h
  · cases h
  · exact ⟨hp, FileNode.forall_mem_getLast?_of_walk h⟩

/-- **A search finds paths that end in names.** -/
theorem isFilePath_of_mem_discover {spec : String} {dir : Path} {paths : List Path}
    (hdir : dir.isAbsolute = true) (h : t.discover spec dir = .ok paths) :
    ∀ p ∈ paths, p.IsFilePath := by
  have hroot := Target.isAbsolute_root (Target.ofSpec spec) hdir
  intro p hp
  rcases cases_of_mem_discover h hp with ⟨text, hfile, rfl⟩ | ⟨entries, names, -, hnames, rfl⟩
  · exact isFilePath_of_lookup hroot hfile
  · exact Path.isFilePath_joinAll hroot (FileNode.isModelPath_of_mem_modelNames entries hnames)

/-- **What is found below a directory is where its path leads,** unless a name holds a NUL. -/
theorem lookup_joinAll {root : Path} {deep : Bool} {names : List String}
    {entries : List (String × FileNode)} {text : Option String} (habs : root.isAbsolute = true)
    (hroot : t.lookup root = .ok (.dir entries))
    (hnames : ∀ name ∈ names, Path.isEntryName name = true)
    (hpath : isModelPath deep names = true)
    (hat : FileNode.at? names (.dir entries) = some (.file text))
    (hnul : '\x00' ∉ (root.joinAll names).text.toList) :
    t.lookup (root.joinAll names) = .ok (.file text) := by
  have hfile := Path.isFilePath_joinAll habs hpath
  have hdir : FileNode.walk [] t.root root.steps = .ok (.dir entries) := by
    rw [lookup_of_isAbsolute habs] at hroot
    split at hroot
    · cases hroot
    · exact FileNode.walk_filter_of_ok hroot
  obtain ⟨up, hup⟩ := FileNode.exists_walk_append hdir
  rw [lookup_of_isAbsolute hfile.absolute, if_neg hnul,
    ← FileNode.walk_filter [] t.root hfile.ended]
  change FileNode.walk [] t.root (root.joinAll names).steps = _
  rw [Path.steps_joinAll habs hnames, hup, FileNode.walk_names hnames hat]

end FileTree

end CallPolicy
