import CallPolicy.Proofs.OrderedMap
import CallPolicy.Proofs.Spelling
import CallPolicy.Proofs.Vendoring

/-!
# Origins by path segments

Origins are found by looking for marks in the text of a path and by cutting texts off it.  Here they
are read segment by segment.  The origin of a path is what stands after the last `vendor` segment
that something follows; a rule covers a path if its segments are the first ones of the path; of all
rules that cover it, the one with the most segments puts its target in their place.  Segments may be
empty, so this says what happens to leading, trailing and repeated slashes too, in paths and in
rules.

## Main statements

* `Text.join_append` — segments that are put after others.
* `ModulePath.tracedBySegments` — the origin of a path, by its segments.
* `OriginMap.below?_eq_some_iff` — what is left of a path below a rule.
* `OriginMap.isLongest_longestRule?` — the rule that applies is the longest one that covers a path.
* `OriginMap.withRules_of_perm` — rules for different modules may be added in any order.
* `OriginMap.origins_by_segments` — origins are found by whole segments.
-/

namespace CallPolicy

/-! ## Segments -/

namespace Text

/-- Segments that are put after others stand behind a separator each. -/
theorem join_append {sep : Char} {xs : List (List Char)} (hne : xs ≠ []) (ys : List (List Char)) :
    join sep (xs ++ ys) = join sep xs ++ ys.flatMap (sep :: ·) := by
  fun_induction join sep xs with
  | case1 => exact absurd rfl hne
  | case2 piece =>
    induction ys generalizing piece with
    | nil => simp [join]
    | cons y ys ih =>
      have hrest := ih y (List.cons_ne_nil y [])
      rw [List.singleton_append] at hrest ⊢
      rw [join, hrest, List.flatMap_cons]
      rfl
  | case3 piece next pieces ih =>
    have hrest := ih (List.cons_ne_nil next pieces)
    rw [List.cons_append] at hrest
    rw [List.cons_append, List.cons_append, join, hrest, List.append_assoc]
    rfl

theorem flatMap_cons_eq {sep : Char} {ys : List (List Char)} (hne : ys ≠ []) :
    ys.flatMap (sep :: ·) = sep :: join sep ys := by
  cases ys with
  | nil => exact absurd rfl hne
  | cons y ys =>
    rw [← List.singleton_append, join_append (List.cons_ne_nil y [])]
    rfl

/-- What follows the last mark stands behind a mark. -/
theorem exists_of_afterLast? {mark text rest : List Char} (h : afterLast? mark text = some rest) :
    ∃ before, text = before ++ (mark ++ rest) := by
  induction text with
  | nil => cases h
  | cons c text ih =>
    rw [afterLast?, Option.or_eq_some_iff] at h
    rcases h with h | ⟨-, h⟩
    · obtain ⟨before, rfl⟩ := ih h
      exact ⟨c :: before, rfl⟩
    · exact ⟨[], by rw [after?_eq_some_iff.1 h, List.nil_append]⟩

end Text

/-! ## Copies -/

namespace ModulePath

/-- The parts of a path between slashes. -/
def segments (path : ModulePath) : List (List Char) :=
  Text.split '/' path.text.toList

/-- The name of the directories that hold copies. -/
def vendor : List Char := "vendor".toList

/-- The segments stand after the last `vendor` that something follows. -/
structure SinceVendor (path : ModulePath) (rest : List (List Char)) : Prop where
  found : ∃ before, path.segments = before ++ vendor :: rest
  followed : rest ≠ []
  last : vendor ∉ rest.dropLast

/-- The origin of the path, by its segments.  All but the final segment are those of
`segments.dropLast`. -/
structure TracedBySegments (path : ModulePath) : Prop where
  /-- A copy has the segments after the last `vendor`. -/
  copied : vendor ∈ path.segments.dropLast →
    ∃ rest, path.SinceVendor rest ∧ path.origin = String.ofList (Text.join '/' rest)
  /-- Any other path stays as it is. -/
  kept : vendor ∉ path.segments.dropLast → path.origin = path.text
  isVendored : path.isVendored = true ↔ vendor ∈ path.segments.dropLast
  /-- An origin is no copy. -/
  idempotent : (⟨path.origin⟩ : ModulePath).origin = path.origin

theorem segments_ofList (text : List Char) :
    (⟨String.ofList text⟩ : ModulePath).segments = Text.split '/' text := by
  rw [segments, String.toList_ofList]

theorem join_segments (path : ModulePath) : Text.join '/' path.segments = path.text.toList :=
  Text.join_split '/' path.text.toList

/-- Among segments of which one that is followed is `vendor`, there is a last one of these. -/
theorem exists_last_vendor {ss : List (List Char)} (h : vendor ∈ ss.dropLast) :
    ∃ before rest, ss = before ++ vendor :: rest ∧ rest ≠ [] ∧ vendor ∉ rest.dropLast := by
  induction ss with
  | nil => cases h
  | cons s ss ih =>
    by_cases hrest : vendor ∈ ss.dropLast
    · obtain ⟨before, rest, hss, hne, hlast⟩ := ih hrest
      exact ⟨s :: before, rest, by rw [hss]; rfl, hne, hlast⟩
    · cases ss with
      | nil => cases h
      | cons t ts =>
        rw [List.dropLast_cons_cons, List.mem_cons] at h
        exact ⟨[], t :: ts, by rw [h.resolve_right hrest]; rfl, List.cons_ne_nil t ts, hrest⟩

theorem exists_sinceVendor {path : ModulePath} (h : vendor ∈ path.segments.dropLast) :
    ∃ rest, path.SinceVendor rest := by
  obtain ⟨before, rest, hsegments, hne, hlast⟩ := exists_last_vendor h
  exact ⟨rest, ⟨before, hsegments⟩, hne, hlast⟩

/-- A `vendor` between slashes, or at the start, is a segment that something follows. -/
theorem vendor_mem_dropLast {text rest : List Char}
    (h : text = "vendor/".toList ++ rest ∨
      ∃ before, text = before ++ ("/vendor/".toList ++ rest)) :
    vendor ∈ (Text.split '/' text).dropLast := by
  have hvendor : Text.split '/' ("vendor/".toList ++ rest) = vendor :: Text.split '/' rest :=
    (Text.split_append_sep '/' vendor rest).trans (by rw [Text.split_of_not_mem (by decide)]; rfl)
  have hmem : ∀ before, vendor ∈ (before ++ vendor :: Text.split '/' rest).dropLast := by
    intro before
    rw [List.dropLast_append_of_ne_nil (List.cons_ne_nil _ _),
      List.dropLast_cons_of_ne_nil (Text.split_ne_nil '/' rest)]
    exact List.mem_append_right _ List.mem_cons_self
  rcases h with rfl | ⟨before, rfl⟩
  · rw [hvendor]
    exact hmem []
  · have hsplit : before ++ ("/vendor/".toList ++ rest) =
        before ++ '/' :: ("vendor/".toList ++ rest) := rfl
    rw [hsplit, Text.split_append_sep, hvendor]
    exact hmem _

/-- Without a `vendor` that something follows, a text is its own origin. -/
theorem originChars_of_not_mem {text : List Char}
    (h : vendor ∉ (Text.split '/' text).dropLast) : originChars text = text := by
  have hinner : Text.afterLast? "/vendor/".toList text = none := by
    rw [Option.eq_none_iff_forall_not_mem]
    intro rest hrest
    exact h (vendor_mem_dropLast (.inr (Text.exists_of_afterLast? hrest)))
  have hfirst : Text.after? "vendor/".toList text = none := by
    rw [Option.eq_none_iff_forall_not_mem]
    intro rest hrest
    exact h (vendor_mem_dropLast (.inl (Text.after?_eq_some_iff.1 hrest)))
  rw [originChars_eq, hinner, hfirst]
  rfl

namespace SinceVendor

variable {path : ModulePath} {rest : List (List Char)}

theorem split_join (h : path.SinceVendor rest) : Text.split '/' (Text.join '/' rest) = rest := by
  obtain ⟨before, hsegments⟩ := h.found
  refine Text.split_join h.followed ?_
  intro s hs
  have hmem : s ∈ path.segments := by
    rw [hsegments]
    exact List.mem_append_right _ (List.mem_cons_of_mem _ hs)
  exact Text.not_mem_of_mem_split hmem

/-- In the text the last `vendor` stands at the start or between slashes. -/
theorem text_cases (h : path.SinceVendor rest) :
    path.text.toList = "vendor/".toList ++ Text.join '/' rest ∨
      ∃ before, path.text.toList = before ++ ("/vendor/".toList ++ Text.join '/' rest) := by
  obtain ⟨before, hsegments⟩ := h.found
  have hrest : (vendor :: rest).flatMap ('/' :: ·) = "/vendor/".toList ++ Text.join '/' rest := by
    rw [List.flatMap_cons, Text.flatMap_cons_eq h.followed]
    rfl
  rw [← join_segments, hsegments]
  -- the first segment has no slash before it
  by_cases hbefore : before = []
  · left
    rw [hbefore, List.nil_append, ← List.singleton_append,
      Text.join_append (List.cons_ne_nil vendor []), Text.flatMap_cons_eq h.followed]
    rfl
  · right
    exact ⟨Text.join '/' before, by rw [Text.join_append hbefore, hrest]⟩

/-- The segments since the last `vendor` are the origin. -/
theorem originChars_eq (h : path.SinceVendor rest) :
    originChars path.text.toList = Text.join '/' rest := by
  have hown : originChars (Text.join '/' rest) = Text.join '/' rest := by
    refine originChars_of_not_mem ?_
    rw [h.split_join]
    exact h.last
  rcases h.text_cases with htext | ⟨before, htext⟩
  · rw [htext, originChars_vendor_append, hown]
  · rw [htext, originChars_append_vendor_append, hown]

theorem length_lt (h : path.SinceVendor rest) :
    (Text.join '/' rest).length < path.text.toList.length := by
  rcases h.text_cases with htext | ⟨before, htext⟩
  · rw [htext, List.length_append]
    have hmark : "vendor/".toList.length = 7 := rfl
    omega
  · rw [htext, List.length_append, List.length_append]
    have hmark : "/vendor/".toList.length = 8 := rfl
    omega

end SinceVendor

/-- **The origin of a path, by its segments.** -/
theorem tracedBySegments (path : ModulePath) : path.TracedBySegments := by
  have hkept : ∀ path : ModulePath, vendor ∉ path.segments.dropLast → path.origin = path.text := by
    intro path h
    rw [origin, originChars_of_not_mem h, String.ofList_toList]
  have hcopied : ∀ {rest}, path.SinceVendor rest →
      path.origin = String.ofList (Text.join '/' rest) := by
    intro rest h
    rw [origin, h.originChars_eq]
  refine ⟨?_, hkept path, ?_, ?_⟩
  · intro h
    obtain ⟨rest, hrest⟩ := exists_sinceVendor h
    exact ⟨rest, hrest, hcopied hrest⟩
  · rw [ModulePath.isVendored, bne_iff_ne]
    constructor
    · intro hlength
      by_contra h
      exact hlength (by rw [hkept path h])
    · intro h
      obtain ⟨rest, hrest⟩ := exists_sinceVendor h
      have hlt := hrest.length_lt
      rw [String.length_toList] at hlt
      rw [hcopied hrest, String.length_ofList]
      exact hlt.ne
  · by_cases h : vendor ∈ path.segments.dropLast
    · obtain ⟨rest, hrest⟩ := exists_sinceVendor h
      rw [hcopied hrest]
      refine hkept _ ?_
      rw [segments_ofList, hrest.split_join]
      exact hrest.last
    · rw [hkept path h, hkept path h]

end ModulePath

/-! ## Rules -/

namespace OriginMap

/-- The segments of the rule are the first ones of the path. -/
def Covers (source : String) (path : ModulePath) : Prop :=
  (⟨source⟩ : ModulePath).segments <+: path.segments

/-- What is left of a path below a rule are the segments that follow those of the rule. -/
theorem below?_eq_some_iff {source path rest : List Char} :
    below? source path = some rest ↔
      ∃ more, Text.split '/' path = Text.split '/' source ++ more ∧
        rest = more.flatMap ('/' :: ·) := by
  have hsource : ∀ more, Text.join '/' (Text.split '/' source ++ more) =
      source ++ more.flatMap ('/' :: ·) := by
    intro more
    rw [Text.join_append (Text.split_ne_nil '/' source), Text.join_split]
  rw [below?, Option.filter_eq_some_iff, Text.after?_eq_some_iff, Bool.or_eq_true,
    List.isEmpty_iff, decide_eq_true_eq]
  constructor
  · rintro ⟨rfl, rfl | hslash⟩
    · exact ⟨[], by rw [List.append_nil, List.append_nil], rfl⟩
    · obtain ⟨below, rfl⟩ := List.head?_eq_some_iff.1 hslash
      refine ⟨Text.split '/' below, Text.split_append_sep '/' source below, ?_⟩
      rw [Text.flatMap_cons_eq (Text.split_ne_nil '/' below), Text.join_split]
  · rintro ⟨more, hsplit, rfl⟩
    refine ⟨by rw [← hsource, ← hsplit, Text.join_split], ?_⟩
    cases more with
    | nil => exact .inl rfl
    | cons s more => exact .inr rfl

/-- A rule covers a path exactly if something is left of the path below it, be it nothing. -/
theorem isSome_below?_iff {source : String} {path : ModulePath} :
    (below? source.toList path.text.toList).isSome = true ↔ Covers source path := by
  rw [Option.isSome_iff_exists]
  constructor
  · rintro ⟨rest, hrest⟩
    obtain ⟨more, hsplit, -⟩ := below?_eq_some_iff.1 hrest
    exact ⟨more, hsplit.symm⟩
  · rintro ⟨more, hsplit⟩
    exact ⟨_, below?_eq_some_iff.2 ⟨more, hsplit.symm, rfl⟩⟩

/-- What is left of a covered path. -/
theorem drop_of_covers {source : String} {path : ModulePath} (h : Covers source path) :
    path.text.toList.drop source.length =
      (path.segments.drop (⟨source⟩ : ModulePath).segments.length).flatMap ('/' :: ·) := by
  obtain ⟨more, hsegments⟩ := h
  have hbelow : below? source.toList path.text.toList = some (more.flatMap ('/' :: ·)) :=
    below?_eq_some_iff.2 ⟨more, hsegments.symm, rfl⟩
  have htext : path.text.toList = source.toList ++ more.flatMap ('/' :: ·) :=
    Text.after?_eq_some_iff.1 (Option.filter_eq_some_iff.1 hbelow).1
  rw [← hsegments, List.drop_left, htext, ← String.length_toList, List.drop_left]

/-- Of two rules that cover a path and differ, the longer one has more segments. -/
theorem length_segments_lt {source source' : String} {path : ModulePath}
    (h : Covers source path) (h' : Covers source' path) (hne : source' ≠ source)
    (hlength : source'.length ≤ source.length) :
    (⟨source'⟩ : ModulePath).segments.length < (⟨source⟩ : ModulePath).segments.length := by
  by_contra hle
  -- otherwise the longer one covers the path of the other
  have hcovers : Covers source ⟨source'⟩ := List.prefix_of_prefix_length_le h h' (not_lt.1 hle)
  obtain ⟨rest, hrest⟩ := Option.isSome_iff_exists.1 (isSome_below?_iff.2 hcovers)
  have htext : source'.toList = source.toList ++ rest :=
    Text.after?_eq_some_iff.1 (Option.filter_eq_some_iff.1 hrest).1
  have hlengths := congrArg List.length htext
  rw [List.length_append, String.length_toList, String.length_toList] at hlengths
  have hnil : rest = [] := List.eq_nil_of_length_eq_zero (by omega)
  rw [hnil, List.append_nil] at htext
  exact hne (String.toList_injective htext)

/-! ## The longest rule -/

/-- The rule is the longest one that covers the path among the given ones; none of them does, if
there is no such rule. -/
def IsLongest (path : ModulePath) (rules : List (String × String)) :
    Option (String × String) → Prop
  | none => ∀ rule ∈ rules, ¬Covers rule.1 path
  | some best => best ∈ rules ∧ Covers best.1 path ∧
      ∀ rule ∈ rules, Covers rule.1 path → rule.1.length ≤ best.1.length

/-- The longer of the longest rule so far and one more, if that covers the path. -/
def longer (path : ModulePath) (best : Option (String × String)) (rule : String × String) :
    Option (String × String) :=
  if (below? rule.1.toList path.text.toList).isSome && best.all (·.1.length ≤ rule.1.length) then
    some rule
  else best

theorem longer_cases (path : ModulePath) (best : Option (String × String))
    (rule : String × String) :
    (Covers rule.1 path ∧ (∀ b ∈ best, b.1.length ≤ rule.1.length) ∧
        longer path best rule = some rule) ∨
      ((Covers rule.1 path → ∃ b ∈ best, rule.1.length < b.1.length) ∧
        longer path best rule = best) := by
  unfold longer
  split
  next hlonger =>
    rw [Bool.and_eq_true, isSome_below?_iff, Option.all_eq_true] at hlonger
    exact .inl ⟨hlonger.1, fun b hb => of_decide_eq_true (hlonger.2 b hb), rfl⟩
  next hshorter =>
    rw [Bool.and_eq_true, isSome_below?_iff, Option.all_eq_true] at hshorter
    refine .inr ⟨?_, rfl⟩
    intro hcovers
    by_contra hnone
    refine hshorter ⟨hcovers, fun b hb => decide_eq_true (not_lt.1 fun hlt => hnone ⟨b, hb, hlt⟩)⟩

/-- One more rule. -/
theorem IsLongest.step {path : ModulePath} {rules : List (String × String)}
    {best : Option (String × String)} (h : IsLongest path rules best) (rule : String × String) :
    IsLongest path (rules ++ [rule]) (longer path best rule) := by
  rcases longer_cases path best rule with ⟨hcovers, hbest, hlonger⟩ | ⟨hshorter, hkept⟩
  · rw [hlonger]
    refine ⟨by simp, hcovers, ?_⟩
    intro rule' hrule' hcovers'
    rcases List.mem_append.1 hrule' with hrule' | hrule'
    · cases best with
      | none => exact absurd hcovers' (h rule' hrule')
      | some best => exact (h.2.2 rule' hrule' hcovers').trans (hbest best rfl)
    · rw [List.mem_singleton.1 hrule']
  · rw [hkept]
    cases best with
    | none =>
      intro rule' hrule' hcovers'
      rcases List.mem_append.1 hrule' with hrule' | hrule'
      · exact h rule' hrule' hcovers'
      · rw [List.mem_singleton.1 hrule'] at hcovers'
        obtain ⟨b, hb, -⟩ := hshorter hcovers'
        cases hb
    | some best =>
      refine ⟨List.mem_append_left _ h.1, h.2.1, ?_⟩
      intro rule' hrule' hcovers'
      rcases List.mem_append.1 hrule' with hrule' | hrule'
      · exact h.2.2 rule' hrule' hcovers'
      · rw [List.mem_singleton.1 hrule'] at hcovers' ⊢
        obtain ⟨b, hb, hlt⟩ := hshorter hcovers'
        cases hb
        exact hlt.le

/-- **The rule that applies is the longest one that covers the path.** -/
theorem isLongest_longestRule? (path : ModulePath) (rules : List (String × String)) :
    IsLongest path rules (longestRule? path.text.toList rules) := by
  have hrun : ∀ seen best, IsLongest path seen best →
      IsLongest path (seen ++ rules) (rules.foldl (longer path) best) := by
    induction rules with
    | nil =>
      intro seen best h
      rwa [List.append_nil]
    | cons rule rest ih =>
      intro seen best h
      rw [List.append_cons, List.foldl_cons]
      exact ih _ _ (h.step rule)
  exact hrun [] none fun _ hrule => nomatch hrule

/-! ## Origins -/

/-- The origin of the path under the rules, by segments.  The rules are held against the origin that
the path has without them. -/
structure RewritesBySegments (m : OriginMap) (path : ModulePath) : Prop where
  /-- If some rule covers the path, there is one with more segments than any other such rule.  Its
  target is followed by the segments that it leaves. -/
  rewritten : (∃ source target, m.rules.get? source = some target ∧ Covers source ⟨path.origin⟩) →
    ∃ source target, m.rules.get? source = some target ∧ Covers source ⟨path.origin⟩ ∧
      (∀ source' target', m.rules.get? source' = some target' → Covers source' ⟨path.origin⟩ →
        source' ≠ source →
        (⟨source'⟩ : ModulePath).segments.length < (⟨source⟩ : ModulePath).segments.length) ∧
      m.origin path = target ++ String.ofList
        (((⟨path.origin⟩ : ModulePath).segments.drop
          (⟨source⟩ : ModulePath).segments.length).flatMap ('/' :: ·))
  /-- If no rule covers the path, it stays as it is. -/
  kept : (∀ source target, m.rules.get? source = some target → ¬Covers source ⟨path.origin⟩) →
    m.origin path = path.origin

theorem rewritesBySegments (m : OriginMap) (path : ModulePath) : m.RewritesBySegments path := by
  have hlongest := isLongest_longestRule? ⟨path.origin⟩ m.rules.entries
  cases hrule : longestRule? path.origin.toList m.rules.entries with
  | none =>
    rw [hrule] at hlongest
    refine ⟨?_, fun _ => by rw [origin, hrule]⟩
    rintro ⟨source, target, hget, hcovers⟩
    exact absurd hcovers (hlongest _ ((OrderedMap.mem_entries_iff _ source target).2 hget))
  | some rule =>
    obtain ⟨source, target⟩ := rule
    rw [hrule] at hlongest
    obtain ⟨hmem, hcovers, hmost⟩ := hlongest
    have hget := (OrderedMap.mem_entries_iff _ source target).1 hmem
    refine ⟨fun _ => ⟨source, target, hget, hcovers, ?_, ?_⟩, ?_⟩
    · intro source' target' hget' hcovers' hne
      have hlength := hmost _ ((OrderedMap.mem_entries_iff _ source' target').2 hget') hcovers'
      exact length_segments_lt hcovers hcovers' hne hlength
    · rw [origin, hrule, ← drop_of_covers hcovers]
    · exact fun h => absurd hcovers (h source target hget)

/-! ## The order of rules -/

/-- The map with more rules, added one after the other. -/
def withRules (m : OriginMap) (rules : List (String × String)) : OriginMap :=
  rules.foldl (fun m rule => m.withRule rule.1 rule.2) m

/-- Rules for two modules may be added in either order. -/
theorem withRule_comm (m : OriginMap) {source source' : String} (hne : source ≠ source')
    (target target' : String) :
    (m.withRule source target).withRule source' target' =
      (m.withRule source' target').withRule source target := by
  refine congrArg OriginMap.mk (OrderedMap.eq_of_get?_eq fun key => ?_)
  simp only [withRule, OrderedMap.get?_insert, Std.LawfulEqCmp.compare_eq_iff_eq]
  by_cases hkey : key = source
  · rw [hkey, if_neg hne, if_pos rfl, if_pos rfl]
  · rw [if_neg hkey, if_neg hkey]

/-- **Rules for different modules may be added in any order.** -/
theorem withRules_of_perm (m : OriginMap) {rules rules' : List (String × String)}
    (hperm : rules'.Perm rules) (hdistinct : (rules.map Prod.fst).Nodup) :
    m.withRules rules' = m.withRules rules := by
  refine (hperm.symm.foldl_eq' ?_ m).symm
  intro rule hrule rule' hrule' m
  by_cases heq : rule = rule'
  · rw [heq]
  · refine withRule_comm m ?_ _ _
    exact fun hkey => heq (List.inj_on_of_nodup_map hdistinct hrule hrule' hkey)

/-- **Origins are found by whole segments.** -/
theorem origins_by_segments (m : OriginMap) (path : ModulePath) :
    path.TracedBySegments ∧ m.RewritesBySegments path ∧
      ∀ rules rules' : List (String × String), rules'.Perm rules → (rules.map Prod.fst).Nodup →
        (m.withRules rules').origin path = (m.withRules rules).origin path := by
  refine ⟨path.tracedBySegments, m.rewritesBySegments path, ?_⟩
  intro rules rules' hperm hdistinct
  rw [m.withRules_of_perm hperm hdistinct]

/-- Rules of which two cover `/a/b`, the empty one and one of two segments. -/
def slashedRules : List (String × String) :=
  [("", "top"), ("/a", "t/"), ("/a/", "u"), ("a", "v")]

theorem origins_by_segments_slashed :
    slashedRules.reverse.Perm slashedRules ∧ (slashedRules.map Prod.fst).Nodup ∧
      ModulePath.vendor ∈ (⟨"x/vendor/vendor//a/b"⟩ : ModulePath).segments.dropLast ∧
      (∃ rest, (⟨"x/vendor/vendor//a/b"⟩ : ModulePath).SinceVendor rest) ∧
      (empty.withRules slashedRules.reverse).origin ⟨"x/vendor/vendor//a/b"⟩ =
        (empty.withRules slashedRules).origin ⟨"x/vendor/vendor//a/b"⟩ := by
  have hperm : slashedRules.reverse.Perm slashedRules := List.reverse_perm _
  have hdistinct : (slashedRules.map Prod.fst).Nodup := by decide
  have hvendor : ModulePath.vendor ∈
      (⟨"x/vendor/vendor//a/b"⟩ : ModulePath).segments.dropLast := by decide
  obtain ⟨htraced, -, horder⟩ := origins_by_segments empty ⟨"x/vendor/vendor//a/b"⟩
  obtain ⟨rest, hrest, -⟩ := htraced.copied hvendor
  exact ⟨hperm, hdistinct, hvendor, ⟨rest, hrest⟩, horder _ _ hperm hdistinct⟩

/-- The rule with the most segments applies, and the slash after it stays. -/
example : (empty.withRules slashedRules).origin ⟨"x/vendor/vendor//a/b"⟩ = "t//b" := by
  decide +kernel

end OriginMap

end CallPolicy
