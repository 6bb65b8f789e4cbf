import CallPolicy.OrderedMap

/-!
# The entries of a finite map and its look-ups

The list of entries and the look-up function say the same about a map: an entry is listed exactly if
a look-up of its key finds its value.  For a map made from a list of bindings the look-up finds the
last binding of the key.

## Main statements

* `mem_entries_iff` — an entry is listed exactly if its key leads to its value.
* `eq_of_pairwise_lt` — a list in strictly increasing order is told by its members.
* `eq_of_get?_eq` — a map is told by its look-ups.
* `get?_ofList_eq_some_iff` — a key leads to the value of its last binding.
* `entries_ofList_map` — other keys in the same order make a map with the same entries.
-/

namespace CallPolicy.OrderedMap

variable {κ α : Type} [Ord κ] [Std.LawfulEqOrd κ]

/-! ## Entries -/

/-- A look-up that finds something finds an entry. -/
theorem mem_of_findEntry {key : κ} {value : α} :
    ∀ {entries : List (κ × α)}, findEntry key entries = some value → (key, value) ∈ entries
  | [], h => by simp [findEntry] at h
  | (k, v) :: rest, h => by
    unfold findEntry at h
    split at h
    next heq =>
      rw [Std.LawfulEqOrd.eq_of_compare heq]
      injection h with h
      subst h
      exact List.mem_cons_self
    next => exact List.mem_cons_of_mem _ (mem_of_findEntry h)

variable [Std.TransOrd κ]

/-- In strictly increasing order no later entry hides behind an earlier one of the same key. -/
theorem findEntry_of_mem {key : κ} {value : α} :
    ∀ {entries : List (κ × α)}, (entries.Pairwise fun a b => compare a.1 b.1 = .lt) →
      (key, value) ∈ entries → findEntry key entries = some value
  | (k, v) :: rest, hsorted, h => by
    rw [List.pairwise_cons] at hsorted
    rcases List.mem_cons.1 h with heq | hrest
    · injection heq with hk hv
      subst hk hv
      rw [findEntry, if_pos Std.ReflCmp.compare_self]
    · have hlt : compare k key = .lt := hsorted.1 _ hrest
      have hne : compare key k ≠ .eq := by
        intro heq
        rw [Std.OrientedCmp.eq_symm heq] at hlt
        cases hlt
      rw [findEntry, if_neg hne]
      exact findEntry_of_mem hsorted.2 hrest

/-- An entry is listed exactly if its key leads to its value. -/
theorem mem_entries_iff (m : OrderedMap κ α) (key : κ) (value : α) :
    (key, value) ∈ m.entries ↔ m.get? key = some value :=
  ⟨findEntry_of_mem m.sorted, mem_of_findEntry⟩

omit [Std.LawfulEqOrd κ] in
/-- Lists in strictly increasing order of their keys are equal if they have the same members. -/
theorem eq_of_pairwise_lt {key : α → κ} {xs ys : List α}
    (hxs : xs.Pairwise fun a b => compare (key a) (key b) = .lt)
    (hys : ys.Pairwise fun a b => compare (key a) (key b) = .lt) (h : ∀ a, a ∈ xs ↔ a ∈ ys) :
    xs = ys := by
  have hne : ∀ {a b : α}, compare (key a) (key b) = .lt → a ≠ b := by
    rintro a b hab rfl
    exact Std.OrientedCmp.not_lt_of_lt hab hab
  have hperm : xs.Perm ys := (List.perm_ext_iff_of_nodup (hxs.imp hne) (hys.imp hne)).2 h
  refine hperm.eq_of_pairwise ?_ hxs hys
  intro a b _ _ hab hba
  exact absurd hba (Std.OrientedCmp.not_lt_of_lt hab)

/-- Maps are equal if every key leads to the same value. -/
theorem eq_of_get?_eq {m m' : OrderedMap κ α} (h : ∀ key, m.get? key = m'.get? key) : m = m' := by
  have hentries : m.entries = m'.entries := by
    refine eq_of_pairwise_lt m.sorted m'.sorted ?_
    intro e
    rw [mem_entries_iff, mem_entries_iff, h]
  cases m
  cases m'
  cases hentries
  rfl

/-! ## Maps made from bindings -/

/-- A key leads nowhere exactly if no binding has it. -/
theorem get?_ofList_eq_none_iff (bindings : List (κ × α)) (key : κ) :
    (ofList bindings).get? key = none ↔ ∀ b ∈ bindings, b.1 ≠ key := by
  induction bindings with
  | nil => simp [ofList]
  | cons b rest ih =>
    rw [get?_ofList_cons]
    by_cases hk : key = b.1
    · simp [hk]
    · rw [if_neg fun heq => hk (Std.LawfulEqOrd.eq_of_compare heq), ih]
      simp [Ne.symm hk]

/-- A key leads to the value of its last binding. -/
theorem get?_ofList_eq_some_iff (bindings : List (κ × α)) (key : κ) (value : α) :
    (ofList bindings).get? key = some value ↔
      ∃ before after, bindings = before ++ (key, value) :: after ∧ ∀ b ∈ after, b.1 ≠ key := by
  induction bindings with
  | nil => simp [ofList]
  | cons b rest ih =>
    rw [get?_ofList_cons]
    constructor
    · intro h
      by_cases hk : key = b.1
      · rw [if_pos (by simp [hk])] at h
        cases hrest : (ofList rest).get? b.1 with
        | none =>
          -- no later binding of the key: the first one is the last one
          rw [hrest] at h
          obtain ⟨k, v⟩ := b
          have hv : v = value := by simpa using h
          have hk' : key = k := hk
          subst hv hk'
          exact ⟨[], rest, rfl, (get?_ofList_eq_none_iff rest key).1 hrest⟩
        | some later =>
          rw [hrest] at h
          have hv : later = value := by simpa using h
          subst hv
          obtain ⟨before, after, hsplit, hafter⟩ := ih.1 (by rw [hk]; exact hrest)
          exact ⟨b :: before, after, by rw [hsplit]; rfl, hafter⟩
      · rw [if_neg fun heq => hk (Std.LawfulEqOrd.eq_of_compare heq)] at h
        obtain ⟨before, after, hsplit, hafter⟩ := ih.1 h
        exact ⟨b :: before, after, by rw [hsplit]; rfl, hafter⟩
    · rintro ⟨before, after, hsplit, hafter⟩
      cases before with
      | nil =>
        injection hsplit with hb hrest
        subst hb hrest
        rw [if_pos (by simp), (get?_ofList_eq_none_iff rest key).2 hafter]
        rfl
      | cons b' before =>
        injection hsplit with hb hrest
        subst hb
        have hfound : (ofList rest).get? key = some value := ih.2 ⟨before, after, hrest, hafter⟩
        by_cases hk : key = b.1
        · rw [if_pos (by simp [hk]), ← hk, hfound]
          rfl
        · rw [if_neg fun heq => hk (Std.LawfulEqOrd.eq_of_compare heq), hfound]

/-- An entry of a map made from bindings is one of them. -/
theorem mem_of_mem_entries_ofList {bindings : List (κ × α)} {e : κ × α}
    (h : e ∈ (ofList bindings).entries) : e ∈ bindings := by
  obtain ⟨before, after, rfl, -⟩ :=
    (get?_ofList_eq_some_iff bindings e.1 e.2).1 ((mem_entries_iff _ e.1 e.2).1 h)
  simp

/-! ## Other keys -/

section Rekeyed

variable {κ' : Type} [Ord κ'] [Std.TransOrd κ'] {g : κ → κ'}

omit [Std.LawfulEqOrd κ] [Std.TransOrd κ] [Std.TransOrd κ'] in
theorem map_insertEntry {merge : α → α → α} {key : κ} {value : α} {entries : List (κ × α)}
    (h : ∀ e ∈ entries, compare (g key) (g e.1) = compare key e.1) :
    (insertEntry merge key value entries).map (fun e => (g e.1, e.2)) =
      insertEntry merge (g key) value (entries.map fun e => (g e.1, e.2)) := by
  induction entries with
  | nil => rfl
  | cons e rest ih =>
    rw [List.forall_mem_cons] at h
    rw [List.map_cons, insertEntry, insertEntry, h.1]
    split
    · rfl
    · rfl
    · rw [List.map_cons, ih h.2]

/-- Other keys in the same order make a map with the same entries. -/
theorem entries_ofList_map {bindings : List (κ × α)}
    (h : ∀ a ∈ bindings, ∀ b ∈ bindings, compare (g a.1) (g b.1) = compare a.1 b.1) :
    (ofList (bindings.map fun b => (g b.1, b.2))).entries =
      (ofList bindings).entries.map fun b => (g b.1, b.2) := by
  induction bindings with
  | nil => rfl
  | cons b rest ih =>
    have hfirst : ∀ e ∈ (ofList rest).entries, compare (g b.1) (g e.1) = compare b.1 e.1 :=
      fun e he => h b List.mem_cons_self e (List.mem_cons_of_mem _ (mem_of_mem_entries_ofList he))
    have hrest : ∀ a ∈ rest, ∀ c ∈ rest, compare (g a.1) (g c.1) = compare a.1 c.1 :=
      fun a ha c hc => h a (List.mem_cons_of_mem _ ha) c (List.mem_cons_of_mem _ hc)
    refine Eq.trans ?_ (map_insertEntry hfirst).symm
    rw [← ih hrest]
    rfl

end Rekeyed

end CallPolicy.OrderedMap
