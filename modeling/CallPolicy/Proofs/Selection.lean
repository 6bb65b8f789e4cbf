import CallPolicy.Model.Selection
import CallPolicy.Proofs.Consistency
import CallPolicy.Proofs.Origins

/-!
# Which packages specifiers select

Specifiers are matched by looking for marks at either end of their texts.  Here a specifier is read
by the segments of paths: `P/...` selects the packages whose segments begin with those of `P`, so
`foo/...` does not select `foobar`.  Selecting goes through the specifiers twice, first to find one
that selects nothing and then to pick the packages, and both times it asks the same of each.

## Main statements

* `Model.isWithin_iff`, `Model.selects_iff` — what a specifier selects, by segments.
* `Model.selected_select` — the first specifier that finds nothing is at fault, and if there is none
  the packages that some specifier matches are picked.
* `Model.select_append` — two lists of specifiers select what one or the other does.
* `Model.inRange_of_select` — what is selected of a consistent model is consistent.
* `Model.select_by_segments` — all of this for any specifiers.
-/

namespace CallPolicy.Model

/-! ## One specifier -/

/-- The text is the specifier without one leading `./`. -/
def IsPlain (spec : String) (plain : List Char) : Prop :=
  spec.toList = "./".toList ++ plain ∨ ¬"./".toList <+: spec.toList ∧ plain = spec.toList

/-- What a specifier matches, given its text without a leading `./` and the path of a package. -/
inductive Matches : List Char → List Char → Prop
  /-- Three dots match everything. -/
  | all (path : List Char) : Matches "...".toList path
  /-- Three dots after a slash match the path before them and all paths below it. -/
  | within {base path : List Char} (h : Text.split '/' base <+: Text.split '/' path) :
    Matches (base ++ "/...".toList) path
  /-- Anything else matches itself. -/
  | itself {path : List Char} (hall : path ≠ "...".toList)
    (hwithin : ∀ base, path ≠ base ++ "/...".toList) : Matches path path
  /-- A dot matches the empty path too. -/
  | here : Matches ".".toList []

/-- The specifier matches the path of a package. -/
def MatchedBy (spec path : String) : Prop :=
  ∃ plain, IsPlain spec plain ∧ Matches plain path.toList

theorem plainSpec_eq_iff {spec : String} {plain : List Char} :
    plainSpec spec = plain ↔ IsPlain spec plain := by
  unfold plainSpec IsPlain
  cases h : Text.after? "./".toList spec.toList with
  | some rest =>
    rw [Text.after?_eq_some_iff] at h
    simp [h, eq_comm]
  | none =>
    have hnot : ¬"./".toList <+: spec.toList := by
      rintro ⟨rest, hrest⟩
      rw [Text.after?_eq_some_iff.2 hrest.symm] at h
      cases h
    have hne : spec.toList ≠ "./".toList ++ plain := fun heq => hnot ⟨plain, heq.symm⟩
    simp only [Option.getD_none, hne, hnot, false_or, not_false_eq_true, true_and, eq_comm]

/-- Only `...` and `./...` select everything. -/
theorem selectsAll_iff {spec : String} :
    selectsAll spec = true ↔ spec = "..." ∨ spec = "./..." := by
  rw [selectsAll, decide_eq_true_eq, plainSpec_eq_iff, IsPlain, or_comm,
    ← String.toList_inj, ← String.toList_inj]
  constructor
  · rintro (⟨-, h⟩ | h)
    · exact .inl h.symm
    · exact .inr h
  · rintro (h | h)
    · exact .inl ⟨by rw [h]; decide, h.symm⟩
    · exact .inr h

/-- **A path is within another one if its segments begin with those of the other.** -/
theorem isWithin_iff {base path : List Char} :
    isWithin base path = true ↔ Text.split '/' base <+: Text.split '/' path := by
  have hbelow : isWithin base path = (OriginMap.below? base path).isSome := by
    unfold isWithin OriginMap.below?
    cases Text.after? base path with
    | none => rfl
    | some rest =>
      cases rest with
      | nil => rfl
      | cons c rest => by_cases hc : c = '/' <;> simp [Option.filter, hc]
  rw [hbelow, Option.isSome_iff_exists]
  constructor
  · rintro ⟨rest, hrest⟩
    obtain ⟨more, hsplit, -⟩ := OriginMap.below?_eq_some_iff.1 hrest
    exact ⟨more, hsplit.symm⟩
  · rintro ⟨more, hsplit⟩
    exact ⟨_, OriginMap.below?_eq_some_iff.2 ⟨more, hsplit.symm, rfl⟩⟩

/-- **A specifier selects what it matches by segments.** -/
theorem selects_iff {spec path : String} : selects spec path = true ↔ MatchedBy spec path := by
  have hplain : MatchedBy spec path ↔ Matches (plainSpec spec) path.toList := by
    constructor
    · rintro ⟨plain, hspec, h⟩
      rwa [plainSpec_eq_iff.2 hspec]
    · exact fun h => ⟨_, plainSpec_eq_iff.1 rfl, h⟩
  have hempty : path.isEmpty = true ↔ path.toList = [] := by
    rw [String.isEmpty_iff, String.toList_eq_nil_iff]
  rw [hplain]
  simp only [selects, selectsAll, Bool.or_eq_true, Bool.and_eq_true, decide_eq_true_eq, hempty]
  generalize plainSpec spec = plain, path.toList = path
  constructor
  · rintro ((rfl | ⟨rfl, rfl⟩) | h)
    · exact .all path
    · exact .here
    · split at h
      next base hbase =>
        rw [Text.before?_eq_some_iff.1 hbase]
        exact .within (isWithin_iff.1 h)
      next hbase =>
        rw [decide_eq_true_eq] at h
        subst h
        by_cases hall : path = "...".toList
        · rw [hall]
          exact .all _
        · refine .itself hall fun base hpath => ?_
          rw [Text.before?_eq_some_iff.2 hpath] at hbase
          cases hbase
  · intro h
    cases h with
    | all => exact .inl (.inl rfl)
    | within hprefix =>
      right
      rw [Text.before?_eq_some_iff.2 rfl]
      exact isWithin_iff.2 hprefix
    | itself _ hwithin =>
      right
      split
      next base hbase => exact absurd (Text.before?_eq_some_iff.1 hbase) (hwithin base)
      next => exact decide_eq_true rfl
    | here => exact .inl (.inr ⟨rfl, rfl⟩)

/-! ## Several specifiers -/

/-- The specifier need not select anything, or it matches some package. -/
def Finds (m : Model) (spec : String) : Prop :=
  spec = "..." ∨ spec = "./..." ∨ ∃ p ∈ m.packages, MatchedBy spec p.path

theorem unmatched_iff {m : Model} {spec : String} :
    (!selectsAll spec && !m.packages.any fun p => selects spec p.path) = true ↔ ¬m.Finds spec := by
  rw [Finds, ← or_assoc, ← selectsAll_iff]
  simp [← selects_iff]

/-- What becomes of a selection. -/
inductive Selected (m : Model) (specs : List String) (dir : Path) :
    Except ResolveError Model → Prop
  /-- The first specifier that finds nothing is at fault. -/
  | fault {before after : List String} {spec : String} (hspecs : specs = before ++ spec :: after)
    (hbefore : ∀ s ∈ before, m.Finds s) (hspec : ¬m.Finds spec) :
    Selected m specs dir (.error (.notFound spec dir))
  /-- If there is none, the packages that some specifier matches are picked, in their order. -/
  | picked (keep : Package → Bool) (hspecs : ∀ spec ∈ specs, m.Finds spec)
    (hkeep : ∀ p, keep p = true ↔ ∃ spec ∈ specs, MatchedBy spec p.path) :
    Selected m specs dir (.ok { m with packages := m.packages.filter keep })

variable (m : Model) {specs specs' : List String}

theorem selected_select (hne : specs ≠ []) (dir : Path) :
    m.Selected specs dir (m.select specs dir) := by
  rw [select, if_neg (by simpa using hne)]
  split
  next spec hfault =>
    obtain ⟨hspec, before, after, hspecs, hbefore⟩ := List.find?_eq_some_iff_append.1 hfault
    refine .fault hspecs (fun s hs => ?_) (unmatched_iff.1 hspec)
    by_contra hnot
    have hfound := hbefore s hs
    rw [unmatched_iff.2 hnot] at hfound
    cases hfound
  next hnone =>
    refine .picked _ (fun spec hspec => ?_) (fun p => ?_)
    · by_contra hnot
      exact List.find?_eq_none.1 hnone spec hspec (unmatched_iff.2 hnot)
    · simp [← selects_iff]

/-- **Two lists of specifiers select what one or the other does,** and the first fault of both is
that of the two together. -/
theorem select_append (hne : specs ≠ []) (hne' : specs' ≠ []) (dir : Path) :
    m.select (specs ++ specs') dir =
      match m.select specs dir, m.select specs' dir with
      | .error e, _ => .error e
      | .ok _, .error e => .error e
      | .ok a, .ok b => .ok
          { m with packages := m.packages.filter fun p => p ∈ a.packages ∨ p ∈ b.packages } := by
  have hfaults : m.unmatchedSpec? (specs ++ specs') =
      (m.unmatchedSpec? specs).or (m.unmatchedSpec? specs') := List.find?_append
  have hempty : ∀ {specs : List String}, specs ≠ [] → ¬specs.isEmpty = true := by simp
  rw [select, select, select, if_neg (hempty hne), if_neg (hempty hne'),
    if_neg (hempty (List.append_ne_nil_of_left_ne_nil hne specs')), hfaults]
  cases m.unmatchedSpec? specs with
  | some spec => rfl
  | none =>
    cases m.unmatchedSpec? specs' with
    | some spec => rfl
    | none =>
      have hpackages : (m.packages.filter fun p => (specs ++ specs').any (selects · p.path)) =
          m.packages.filter fun p =>
            p ∈ m.packages.filter (fun p => specs.any (selects · p.path)) ∨
              p ∈ m.packages.filter (fun p => specs'.any (selects · p.path)) := by
        refine List.filter_congr fun p hp => ?_
        simp only [List.any_append, List.mem_filter, hp, true_and, Bool.decide_or,
          Bool.decide_eq_true]
      exact congrArg (fun packages => Except.ok { m with packages }) hpackages

variable {m}

/-- What is selected of a consistent model is consistent. -/
theorem inRange_of_select {dir : Path} {m' : Model} (hm : m.InRange)
    (h : m.select specs dir = .ok m') : m'.InRange := by
  unfold select at h
  split at h
  · cases h
    exact hm
  · split at h
    · cases h
    · cases h
      exact ⟨fun p hp => hm.uses p (List.mem_of_mem_filter hp), hm.types, hm.symbols⟩

/-- **Specifiers select packages by the segments of their paths.** -/
theorem select_by_segments (m : Model) (dir : Path) :
    (∀ specs, specs ≠ [] → m.Selected specs dir (m.select specs dir)) ∧
    (∀ specs specs', specs ≠ [] → specs' ≠ [] →
      m.select (specs ++ specs') dir =
        match m.select specs dir, m.select specs' dir with
        | .error e, _ => .error e
        | .ok _, .error e => .error e
        | .ok a, .ok b => .ok
            { m with packages := m.packages.filter fun p => p ∈ a.packages ∨ p ∈ b.packages }) ∧
    ∀ specs m', m.isConsistent = true → m.select specs dir = .ok m' → m'.isConsistent = true := by
  refine ⟨fun specs hne => m.selected_select hne dir,
    fun specs specs' hne hne' => m.select_append hne hne' dir, ?_⟩
  intro specs m' hm h
  rw [isConsistent_iff] at hm ⊢
  exact inRange_of_select hm h

/-- A package, one below it, and one whose path only begins with the same letters. -/
def nestedPackages : Model where
  packages := [{ path := "foo" }, { path := "foo/bar" }, { path := "foobar" }]

theorem select_by_segments_nestedPackages :
    nestedPackages.isConsistent = true ∧
      nestedPackages.select ["./foo/..."] ⟨"/w"⟩ =
        .ok { packages := [{ path := "foo" }, { path := "foo/bar" }] } ∧
      nestedPackages.select ["foobar"] ⟨"/w"⟩ = .ok { packages := [{ path := "foobar" }] } ∧
      nestedPackages.select (["./foo/..."] ++ ["foobar"]) ⟨"/w"⟩ = .ok nestedPackages ∧
      nestedPackages.Selected ["...", "ba", "x"] ⟨"/w"⟩
        (nestedPackages.select ["...", "ba", "x"] ⟨"/w"⟩) := by
  obtain ⟨hselected, happend, -⟩ := nestedPackages.select_by_segments ⟨"/w"⟩
  have hfoo : nestedPackages.select ["./foo/..."] ⟨"/w"⟩ =
      .ok { packages := [{ path := "foo" }, { path := "foo/bar" }] } := rfl
  have hfoobar : nestedPackages.select ["foobar"] ⟨"/w"⟩ =
      .ok { packages := [{ path := "foobar" }] } := rfl
  refine ⟨by decide, hfoo, hfoobar, ?_, hselected _ (by decide)⟩
  rw [happend _ _ (by decide) (by decide), hfoo, hfoobar]
  rfl

end CallPolicy.Model
