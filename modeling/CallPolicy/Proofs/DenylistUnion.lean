import CallPolicy.Proofs.FilteredView

/-!
# Denylists taken together

A check asks its denylist about one reference at a time.  If two denylists have no signature in
common, each reference is the business of at most one of them.  So a check against both together
finds what each of them finds: nothing is lost, nothing is found twice, and what one of them finds
keeps its order and its messages beside what the other finds.

## Main statements

* `Denylist.stored?_union` — what is stored in two denylists taken together.
* `Denylist.messageFor?_union` — without a common signature each message comes from one of them.
* `joins_report_union` — the report of a check against both.
* `exists_joined_reports` — a check against two denylists joins the checks against each.
-/

namespace CallPolicy

/-! ## Selecting by two criteria -/

section Selecting

variable {α β : Type} {f g both : α → Option β}

/-- What is selected by one criterion is among what is selected by a wider one. -/
theorem filterMap_sublist_filterMap (h : ∀ x y, f x = some y → both x = some y) (xs : List α) :
    (xs.filterMap f).Sublist (xs.filterMap both) := by
  induction xs with
  | nil => exact .slnil
  | cons x rest ih =>
    cases hf : f x with
    | none =>
      rw [List.filterMap_cons_none hf]
      cases hboth : both x with
      | none => rwa [List.filterMap_cons_none hboth]
      | some y =>
        rw [List.filterMap_cons_some hboth]
        exact ih.cons y
    | some y =>
      rw [List.filterMap_cons_some hf, List.filterMap_cons_some (h x y hf)]
      exact ih.cons_cons y

/-- What is selected by either of two criteria that never meet is what the one selects and what the
other selects. -/
theorem perm_filterMap_or (hor : ∀ x, both x = (f x).or (g x))
    (hapart : ∀ x, f x = none ∨ g x = none) (xs : List α) :
    (xs.filterMap both).Perm (xs.filterMap f ++ xs.filterMap g) := by
  induction xs with
  | nil => exact .refl _
  | cons x rest ih =>
    cases hf : f x with
    | some y =>
      have hg : g x = none := (hapart x).resolve_left (by simp [hf])
      have hboth : both x = some y := by rw [hor, hf, Option.some_or]
      rw [List.filterMap_cons_some hboth, List.filterMap_cons_some hf, List.filterMap_cons_none hg]
      exact ih.cons y
    | none =>
      have hboth : both x = g x := by rw [hor, hf, Option.none_or]
      rw [List.filterMap_cons_none hf]
      cases hg : g x with
      | none => rwa [List.filterMap_cons_none (hboth.trans hg), List.filterMap_cons_none hg]
      | some y =>
        rw [List.filterMap_cons_some (hboth.trans hg), List.filterMap_cons_some hg]
        exact (ih.cons y).trans List.perm_middle.symm

end Selecting

/-! ## Unions -/

namespace Denylist

variable {d e : Denylist}

/-- The first denylist with the entries of the second one added to it. -/
def union (d e : Denylist) : Denylist :=
  e.entries.entries.foldl (fun d entry => d.insert entry.1 entry.2) d

/-- No signature is on both denylists. -/
def Disjoint (d e : Denylist) : Prop :=
  ∀ signature, d.stored? signature = none ∨ e.stored? signature = none

/-- One more entry is a union with the denylist of this entry. -/
theorem insert_eq_union (d : Denylist) (signature message : String) :
    d.insert signature message = d.union (empty.insert signature message) := rfl

theorem stored?_foldl_insert {entries : List (String × String)}
    (h : entries.Pairwise fun a b => compare a.1 b.1 = .lt) (d : Denylist) (signature : String) :
    (entries.foldl (fun d entry => d.insert entry.1 entry.2) d).stored? signature =
      (OrderedMap.findEntry signature entries).or (d.stored? signature) := by
  induction entries generalizing d with
  | nil => rfl
  | cons entry rest ih =>
    obtain ⟨key, message⟩ := entry
    rw [List.pairwise_cons] at h
    rw [List.foldl_cons, ih h.2, stored?_insert, OrderedMap.findEntry]
    by_cases hkey : signature = key
    · -- the entries are in strict order, so no later one has the same key
      have hrest : OrderedMap.findEntry signature rest = none := by
        rw [Option.eq_none_iff_forall_not_mem]
        intro value hvalue
        have hlt : compare key signature = .lt := h.1 _ (OrderedMap.mem_of_findEntry hvalue)
        rw [hkey, Std.ReflOrd.compare_self] at hlt
        cases hlt
      rw [hrest, if_pos hkey, if_pos (by rw [hkey, Std.ReflOrd.compare_self])]
      rfl
    · have hne : compare signature key ≠ .eq := fun heq =>
        hkey (Std.LawfulEqOrd.eq_of_compare heq)
      rw [if_neg hkey, if_neg hne]

/-- What is stored in two denylists taken together. -/
theorem stored?_union (d e : Denylist) (signature : String) :
    (d.union e).stored? signature = (e.stored? signature).or (d.stored? signature) :=
  stored?_foldl_insert e.entries.sorted d signature

/-- Without a common signature it does not matter which denylist is asked first. -/
theorem Disjoint.stored?_union (h : d.Disjoint e) (signature : String) :
    (d.union e).stored? signature = (d.stored? signature).or (e.stored? signature) := by
  rw [Denylist.stored?_union]
  rcases h signature with hnone | hnone
  · rw [hnone, Option.or_none, Option.none_or]
  · rw [hnone, Option.or_none, Option.none_or]

/-- **Without a common signature each message comes from one of the denylists.** -/
theorem Disjoint.messageFor?_union (h : d.Disjoint e) (signature : String) :
    (d.union e).messageFor? signature =
      (d.messageFor? signature).or (e.messageFor? signature) := by
  unfold messageFor?
  rw [h.stored?_union]
  cases d.stored? signature <;> rfl

/-- There is no message for what is not on the denylist. -/
theorem messageFor?_eq_none {signature : String} (h : d.stored? signature = none) :
    d.messageFor? signature = none := by
  rw [messageFor?, h, Option.map_none]

theorem isEmpty_eq_false_iff (d : Denylist) :
    d.isEmpty = false ↔ ∃ signature message, d.stored? signature = some message := by
  unfold isEmpty OrderedMap.isEmpty stored?
  simp only [← OrderedMap.mem_entries_iff]
  cases d.entries.entries with
  | nil => simp
  | cons entry rest => exact ⟨fun _ => ⟨entry.1, entry.2, List.mem_cons_self⟩, fun _ => rfl⟩

theorem Disjoint.isEmpty_union (h : d.Disjoint e) (hd : d.isEmpty = false) :
    (d.union e).isEmpty = false := by
  obtain ⟨signature, message, hstored⟩ := (isEmpty_eq_false_iff d).1 hd
  rw [isEmpty_eq_false_iff]
  exact ⟨signature, message, by rw [h.stored?_union, hstored, Option.some_or]⟩

/-- A new signature is on no denylist but its own. -/
theorem disjoint_insert_empty {signature : String} (h : d.stored? signature = none)
    (message : String) : d.Disjoint (empty.insert signature message) := by
  intro signature'
  rw [stored?_insert]
  by_cases heq : signature' = signature
  · exact .inl (heq ▸ h)
  · rw [if_neg heq]
    exact .inr rfl

end Denylist

/-! ## Reports -/

/-- The third report joins the first two. -/
structure Report.Joins (first second both : Report) : Prop where
  /-- It reports what they report, each diagnostic as often as the two together. -/
  diagnostics : both.diagnostics.Perm (first.diagnostics ++ second.diagnostics)
  /-- What each of them reports stands in it in the same order. -/
  keepsFirst : first.diagnostics.Sublist both.diagnostics
  keepsSecond : second.diagnostics.Sublist both.diagnostics
  suppressed : both.suppressed = first.suppressed + second.suppressed
  packagesChecked : first.packagesChecked = both.packagesChecked ∧
    second.packagesChecked = both.packagesChecked
  filesChecked : first.filesChecked = both.filesChecked ∧
    second.filesChecked = both.filesChecked

namespace Analyzer

variable {a : Analyzer} {d e : Denylist} {m : Model}

/-- What is not on the denylist is not denied. -/
theorem denied?_eq_none {c : Package × Reference} (h : d.stored? c.2.signature = none) :
    denied? d c = none := by
  unfold denied? forbidden?
  rw [Denylist.messageFor?_eq_none h]
  rfl

/-- A reference is denied by at most one of two denylists without a common signature. -/
theorem denied?_apart (h : d.Disjoint e) (c : Package × Reference) :
    denied? d c = none ∨ denied? e c = none :=
  (h c.2.signature).imp denied?_eq_none denied?_eq_none

/-- A reference is denied by both together if one of them denies it. -/
theorem denied?_union (h : d.Disjoint e) (c : Package × Reference) :
    denied? (d.union e) c = (denied? d c).or (denied? e c) := by
  have hmessage := h.messageFor?_union c.2.signature
  rcases h c.2.signature with hnone | hnone
  · rw [denied?_eq_none hnone, Option.none_or]
    rw [Denylist.messageFor?_eq_none hnone, Option.none_or] at hmessage
    unfold denied? forbidden?
    rw [hmessage]
  · rw [denied?_eq_none hnone, Option.or_none]
    rw [Denylist.messageFor?_eq_none hnone, Option.or_none] at hmessage
    unfold denied? forbidden?
    rw [hmessage]

/-- Each forbidden reference is forbidden by one of the two. -/
theorem countP_isForbidden_union (h : d.Disjoint e) (cs : List (Package × Reference)) :
    cs.countP (isForbidden (d.union e)) =
      cs.countP (isForbidden d) + cs.countP (isForbidden e) := by
  have hperm := perm_filterMap_or (fun c => h.stored?_union c.2.signature)
    (fun c : Package × Reference => h c.2.signature) cs
  have hlength := hperm.length_eq
  rw [List.length_append, List.length_filterMap_eq_countP, List.length_filterMap_eq_countP,
    List.length_filterMap_eq_countP] at hlength
  exact hlength

/-- **The report of a check against two denylists without a common signature** joins those of checks
against each of them. -/
theorem joins_report_union (a : Analyzer) (h : d.Disjoint e) (m : Model) :
    Report.Joins ({ a with policy := .check d }.report m) ({ a with policy := .check e }.report m)
      ({ a with policy := .check (d.union e) }.report m) := by
  -- the references in the order of positions are the same for every denylist
  have hdiagnostics : ∀ denylist, ({ a with policy := .check denylist }.report m).diagnostics =
      (a.sortedCalls m).filterMap (denied? denylist) := fun _ => diagnostics_check rfl
  have hconserved : ∀ denylist, ({ a with policy := .check denylist }.report m).diagnostics.length +
      ({ a with policy := .check denylist }.report m).suppressed =
        (a.sortedCalls m).countP (isForbidden denylist) :=
    fun _ => length_add_suppressed_check rfl
  have hperm : ({ a with policy := .check (d.union e) }.report m).diagnostics.Perm
      (({ a with policy := .check d }.report m).diagnostics ++
        ({ a with policy := .check e }.report m).diagnostics) := by
    rw [hdiagnostics, hdiagnostics, hdiagnostics]
    exact perm_filterMap_or (denied?_union h) (denied?_apart h) _
  refine ⟨hperm, ?_, ?_, ?_, ?_, ?_⟩
  · rw [hdiagnostics, hdiagnostics]
    refine filterMap_sublist_filterMap ?_ _
    intro c x hx
    rw [denied?_union h, hx, Option.some_or]
  · rw [hdiagnostics, hdiagnostics]
    refine filterMap_sublist_filterMap ?_ _
    intro c x hx
    have hnone : denied? d c = none := (denied?_apart h c).resolve_right (by simp [hx])
    rw [denied?_union h, hnone, Option.none_or, hx]
  · -- what is not reported of the forbidden references is counted
    have hlength := hperm.length_eq
    rw [List.length_append] at hlength
    have hcount := countP_isForbidden_union h (a.sortedCalls m)
    have hd := hconserved d
    have he := hconserved e
    have hboth := hconserved (d.union e)
    omega
  · exact ⟨by rw [packagesChecked_report, packagesChecked_report],
      by rw [packagesChecked_report, packagesChecked_report]⟩
  · exact ⟨by rw [filesChecked_report, filesChecked_report],
      by rw [filesChecked_report, filesChecked_report]⟩

/-- **A check against two denylists without a common signature joins the checks against each.**  So
an entry for a new signature takes nothing from what is reported. -/
theorem exists_joined_reports (hd : d.isEmpty = false) (he : e.isEmpty = false)
    (hdisjoint : d.Disjoint e) (hload : a.loader a.specs a.dir = .ok m)
    (hm : m.isConsistent = true) :
    ∃ first second both, { a with policy := .check d }.analyze = .ok first ∧
      { a with policy := .check e }.analyze = .ok second ∧
      { a with policy := .check (d.union e) }.analyze = .ok both ∧
      Report.Joins first second both ∧
      ∀ signature message, d.stored? signature = none →
        ∃ more, { a with policy := .check (d.insert signature message) }.analyze = .ok more ∧
          first.diagnostics.Sublist more.diagnostics := by
  refine ⟨_, _, _, analyze_eq_report hd hload hm, analyze_eq_report he hload hm,
    analyze_eq_report (hdisjoint.isEmpty_union hd) hload hm, joins_report_union a hdisjoint m, ?_⟩
  intro signature message hnew
  have happart := Denylist.disjoint_insert_empty hnew message
  rw [Denylist.insert_eq_union]
  exact ⟨_, analyze_eq_report (happart.isEmpty_union hd) hload hm,
    (joins_report_union a happart m).keepsFirst⟩

/-- Two packages that call two functions: at one position each calls another one, and a comment
permits a call of the second function. -/
def twoFunctions : Model where
  symbols := [⟨"f", ⟨"lib"⟩, .function {}⟩, ⟨"g", ⟨"lib"⟩, .function {}⟩]
  packages :=
    [{ path := "a"
       files := [⟨⟨"a.go"⟩, []⟩]
       uses := [⟨⟨⟨"a.go"⟩, 2, 1⟩, 1⟩, ⟨⟨⟨"a.go"⟩, 5, 1⟩, 1⟩, ⟨⟨⟨"a.go"⟩, 7, 1⟩, 0⟩]
       comments := [⟨⟨"a.go"⟩, 4, "// OK: known"⟩] },
     { path := "b", uses := [⟨⟨⟨"a.go"⟩, 2, 1⟩, 0⟩] }]

theorem exists_joined_reports_twoFunctions :
    (Denylist.ofList [("func lib.f()", "")]).isEmpty = false ∧
      (Denylist.ofList [("func lib.g()", "no g")]).isEmpty = false ∧
      (Denylist.ofList [("func lib.f()", "")]).Disjoint
        (Denylist.ofList [("func lib.g()", "no g")]) ∧
      twoFunctions.isConsistent = true ∧
      ∃ first second both,
        (checkOf twoFunctions (.ofList [("func lib.f()", "")])).analyze = .ok first ∧
        (checkOf twoFunctions (.ofList [("func lib.g()", "no g")])).analyze = .ok second ∧
        (checkOf twoFunctions (.union (.ofList [("func lib.f()", "")])
          (.ofList [("func lib.g()", "no g")]))).analyze = .ok both ∧
        Report.Joins first second both ∧
        ∃ more, (checkOf twoFunctions
            (.insert (.ofList [("func lib.f()", "")]) "func lib.g()" "")).analyze = .ok more ∧
          first.diagnostics.Sublist more.diagnostics := by
  have hf : (Denylist.ofList [("func lib.f()", "")]).isEmpty = false := rfl
  have hg : (Denylist.ofList [("func lib.g()", "no g")]).isEmpty = false := rfl
  have hnew : (Denylist.ofList [("func lib.f()", "")]).stored? "func lib.g()" = none := by decide
  have hdisjoint : (Denylist.ofList [("func lib.f()", "")]).Disjoint
      (Denylist.ofList [("func lib.g()", "no g")]) := Denylist.disjoint_insert_empty hnew "no g"
  have hconsistent : twoFunctions.isConsistent = true := by decide
  obtain ⟨first, second, both, hfirst, hsecond, hboth, hjoins, hadded⟩ :=
    exists_joined_reports (a := checkOf twoFunctions .empty) hf hg hdisjoint rfl hconsistent
  exact ⟨hf, hg, hdisjoint, hconsistent, first, second, both, hfirst, hsecond, hboth, hjoins,
    hadded _ "" hnew⟩

end Analyzer

end CallPolicy
