/-!
# Stable sorting

A list is sorted by inserting its elements one after the other, from the last to the first, each in
front of the first element that it does not come after.  Elements that compare alike keep their
order.  Lists that are nearly in order, as reports and directory listings are, take few steps.

## Termination

Both functions are structural in the list.

## Main statements

* `stableSort_perm` — nothing is lost or added.
* `pairwise_stableSort` — the result is in order.
* `pairwise_stableSort_of_pairwise` — the order of the list remains among those that compare alike.
* `filter_stableSort` — elements that compare alike keep their order.
* `stableSort_flatMap_stableSort` — lists may be sorted before they are put together.
* `filterMap_stableSort` — what is selected and changed may be sorted before or after.
* `map_stableSort` — so may what is changed without a change of its order.
-/

namespace CallPolicy

variable {α : Type} {le : α → α → Bool}

/-- The list with `a` in front of the first element that it does not come after. -/
def insertInOrder (le : α → α → Bool) (a : α) : List α → List α
  | [] => [a]
  | b :: rest => if le a b then a :: b :: rest else b :: insertInOrder le a rest

/-- The list in order. -/
def stableSort (le : α → α → Bool) : List α → List α
  | [] => []
  | a :: rest => insertInOrder le a (stableSort le rest)

/-! ## The same elements -/

theorem insertInOrder_perm (a : α) (xs : List α) : (insertInOrder le a xs).Perm (a :: xs) := by
  induction xs with
  | nil => exact .refl _
  | cons b rest ih =>
    unfold insertInOrder
    split
    · exact .refl _
    · exact (ih.cons b).trans (.swap a b rest)

/-- Nothing is lost or added. -/
theorem stableSort_perm (xs : List α) : (stableSort le xs).Perm xs := by
  induction xs with
  | nil => exact .refl _
  | cons a rest ih => exact (insertInOrder_perm a _).trans (ih.cons a)

/-! ## In order -/

section InOrder

variable (trans : ∀ a b c, le a b = true → le b c = true → le a c = true)
  (total : ∀ a b, le a b = true ∨ le b a = true)
include trans total

/-- Whatever holds between the inserted element and the others holds also between it and those that
come after it in the result and compare alike. -/
theorem pairwise_insertInOrder {r : α → α → Prop} {a : α} {xs : List α} (ha : ∀ b ∈ xs, r a b)
    (h : xs.Pairwise fun x y => le x y = true ∧ (le y x = true → r x y)) :
    (insertInOrder le a xs).Pairwise fun x y => le x y = true ∧ (le y x = true → r x y) := by
  induction xs with
  | nil => simp [insertInOrder]
  | cons b rest ih =>
    rw [List.pairwise_cons] at h
    unfold insertInOrder
    split
    next hab =>
      refine List.pairwise_cons.2 ⟨?_, List.pairwise_cons.2 h⟩
      intro c hc
      refine ⟨?_, fun _ => ha c hc⟩
      rcases List.mem_cons.1 hc with rfl | hc
      · exact hab
      · exact trans _ _ _ hab (h.1 c hc).1
    next hab =>
      rw [List.forall_mem_cons] at ha
      refine List.pairwise_cons.2 ⟨?_, ih ha.2 h.2⟩
      intro c hc
      rcases List.mem_cons.1 ((insertInOrder_perm a rest).mem_iff.1 hc) with rfl | hc
      · exact ⟨(total c b).resolve_left hab, fun hcb => absurd hcb hab⟩
      · exact h.1 c hc

/-- The result is in order, and what held between elements in the order of the list still holds
between those that compare alike. -/
theorem pairwise_stableSort_of_pairwise {r : α → α → Prop} {xs : List α} (h : xs.Pairwise r) :
    (stableSort le xs).Pairwise fun x y => le x y = true ∧ (le y x = true → r x y) := by
  induction xs with
  | nil => exact .nil
  | cons a rest ih =>
    rw [List.pairwise_cons] at h
    refine pairwise_insertInOrder trans total ?_ (ih h.2)
    exact fun b hb => h.1 b ((stableSort_perm rest).mem_iff.1 hb)

/-- The result is in order. -/
theorem pairwise_stableSort (xs : List α) :
    (stableSort le xs).Pairwise fun x y => le x y = true := by
  have htrivial : xs.Pairwise fun _ _ => True := List.pairwise_of_forall fun _ _ => trivial
  exact (pairwise_stableSort_of_pairwise trans total htrivial).imp And.left

end InOrder

/-! ## Stability -/

theorem filter_insertInOrder {p : α → Bool}
    (alike : ∀ a b, p a = true → p b = true → le a b = true) (a : α) (xs : List α) :
    (insertInOrder le a xs).filter p = (a :: xs).filter p := by
  induction xs with
  | nil => rfl
  | cons b rest ih =>
    unfold insertInOrder
    split
    · rfl
    next hab =>
      have hnot : ¬(p a = true ∧ p b = true) := fun h => hab (alike a b h.1 h.2)
      cases ha : p a <;> cases hb : p b <;> simp_all

/-- Elements that compare alike keep their order. -/
theorem filter_stableSort {p : α → Bool}
    (alike : ∀ a b, p a = true → p b = true → le a b = true) (xs : List α) :
    (stableSort le xs).filter p = xs.filter p := by
  induction xs with
  | nil => rfl
  | cons a rest ih =>
    rw [stableSort, filter_insertInOrder alike]
    simp [List.filter_cons, ih]

/-! ## Sorting in parts -/

/-- The elements of the first list are inserted into the second one in order. -/
theorem stableSort_append (xs ys : List α) :
    stableSort le (xs ++ ys) = xs.foldr (insertInOrder le) (stableSort le ys) := by
  induction xs with
  | nil => rfl
  | cons a rest ih => rw [List.cons_append, stableSort, ih, List.foldr_cons]

section Parts

variable (trans : ∀ a b c, le a b = true → le b c = true → le a c = true)
  (total : ∀ a b, le a b = true ∨ le b a = true)
include trans total

/-- Elements that differ in the order may be inserted in either order. -/
theorem insertInOrder_comm {a b : α} (hab : ¬le a b = true) (xs : List α) :
    insertInOrder le b (insertInOrder le a xs) = insertInOrder le a (insertInOrder le b xs) := by
  have hba : le b a = true := (total a b).resolve_left hab
  induction xs with
  | nil => simp [insertInOrder, hab, hba]
  | cons c rest ih =>
    by_cases hac : le a c = true
    · have hbc : le b c = true := trans _ _ _ hba hac
      simp [insertInOrder, hab, hba, hac, hbc]
    · by_cases hbc : le b c = true
      · simp [insertInOrder, hab, hac, hbc]
      · simp [insertInOrder, hac, hbc, ih]

/-- Inserting the elements of a list one of which has been put in its place. -/
theorem foldr_insertInOrder (a : α) (xs ys : List α) :
    (insertInOrder le a xs).foldr (insertInOrder le) ys =
      insertInOrder le a (xs.foldr (insertInOrder le) ys) := by
  induction xs with
  | nil => rfl
  | cons b rest ih =>
    by_cases hab : le a b = true
    · rw [insertInOrder, if_pos hab, List.foldr_cons]
    · rw [insertInOrder, if_neg hab, List.foldr_cons, List.foldr_cons, ih]
      exact insertInOrder_comm trans total hab _

/-- Inserting the elements of a list after sorting it. -/
theorem foldr_stableSort (xs ys : List α) :
    (stableSort le xs).foldr (insertInOrder le) ys = xs.foldr (insertInOrder le) ys := by
  induction xs with
  | nil => rfl
  | cons a rest ih => rw [stableSort, foldr_insertInOrder trans total, ih, List.foldr_cons]

/-- Lists may be sorted before they are put together. -/
theorem stableSort_flatMap_stableSort (xss : List (List α)) :
    stableSort le (xss.flatMap (stableSort le)) = stableSort le xss.flatten := by
  induction xss with
  | nil => rfl
  | cons xs rest ih =>
    rw [List.flatMap_cons, List.flatten_cons, stableSort_append, stableSort_append, ih,
      foldr_stableSort trans total]

end Parts

/-! ## Sorting what is selected -/

/-- An element that comes after nothing goes to the front. -/
theorem insertInOrder_of_forall_le {a : α} {xs : List α} (h : ∀ b ∈ xs, le a b = true) :
    insertInOrder le a xs = a :: xs := by
  cases xs with
  | nil => rfl
  | cons b rest => rw [insertInOrder, if_pos (h b List.mem_cons_self)]

section Selected

variable {β : Type} {le' : β → β → Bool} {f : α → Option β}

/-- An element that is not selected may be left out before. -/
theorem filterMap_insertInOrder_of_none {a : α} (ha : f a = none) (xs : List α) :
    (insertInOrder le a xs).filterMap f = xs.filterMap f := by
  induction xs with
  | nil => simp [insertInOrder, ha]
  | cons b rest ih =>
    unfold insertInOrder
    split
    · rw [List.filterMap_cons_none ha]
    · rw [List.filterMap_cons, ih, List.filterMap_cons]

variable (trans : ∀ a b c, le a b = true → le b c = true → le a c = true)
  (agree : ∀ {a b x y}, f a = some x → f b = some y → le' x y = le a b)
include trans agree

/-- An element that is selected finds its place among the selected ones. -/
theorem filterMap_insertInOrder_of_some {a : α} {x : β} (ha : f a = some x) {xs : List α}
    (hxs : xs.Pairwise fun b c => le b c = true) :
    (insertInOrder le a xs).filterMap f = insertInOrder le' x (xs.filterMap f) := by
  induction xs with
  | nil => simp [insertInOrder, ha]
  | cons b rest ih =>
    rw [List.pairwise_cons] at hxs
    by_cases hab : le a b = true
    · -- in a list in order, what comes not after the first comes not after the others
      have hfront : ∀ y ∈ (b :: rest).filterMap f, le' x y = true := by
        intro y hy
        obtain ⟨c, hc, hfc⟩ := List.mem_filterMap.1 hy
        rw [agree ha hfc]
        rcases List.mem_cons.1 hc with rfl | hc
        · exact hab
        · exact trans _ _ _ hab (hxs.1 c hc)
      rw [insertInOrder, if_pos hab, List.filterMap_cons_some ha, insertInOrder_of_forall_le hfront]
    · rw [insertInOrder, if_neg hab]
      cases hb : f b with
      | none => rw [List.filterMap_cons_none hb, List.filterMap_cons_none hb, ih hxs.2]
      | some y =>
        have hxy : ¬le' x y = true := by
          rw [agree ha hb]
          exact hab
        rw [List.filterMap_cons_some hb, List.filterMap_cons_some hb, ih hxs.2, insertInOrder,
          if_neg hxy]

/-- **What is selected and changed may be sorted before or after,** if the order agrees. -/
theorem filterMap_stableSort (total : ∀ a b, le a b = true ∨ le b a = true) (xs : List α) :
    (stableSort le xs).filterMap f = stableSort le' (xs.filterMap f) := by
  induction xs with
  | nil => rfl
  | cons a rest ih =>
    rw [stableSort]
    cases ha : f a with
    | none => rw [filterMap_insertInOrder_of_none ha, ih, List.filterMap_cons_none ha]
    | some x =>
      rw [filterMap_insertInOrder_of_some trans agree ha (pairwise_stableSort trans total rest), ih,
        List.filterMap_cons_some ha, stableSort]

end Selected

/-- Elements may be left out before or after. -/
theorem stableSort_filter (trans : ∀ a b c, le a b = true → le b c = true → le a c = true)
    (total : ∀ a b, le a b = true ∨ le b a = true) (p : α → Bool) (xs : List α) :
    stableSort le (xs.filter p) = (stableSort le xs).filter p := by
  rw [← List.filterMap_eq_filter]
  refine (filterMap_stableSort trans ?_ total xs).symm
  intro a b x y hx hy
  rw [(Option.guard_eq_some_iff.1 hx).1, (Option.guard_eq_some_iff.1 hy).1]

/-! ## Sorting what is changed -/

section Changed

variable {β : Type} {le' : β → β → Bool} {g : α → β}

theorem map_insertInOrder {a : α} {xs : List α} (h : ∀ b ∈ xs, le' (g a) (g b) = le a b) :
    (insertInOrder le a xs).map g = insertInOrder le' (g a) (xs.map g) := by
  induction xs with
  | nil => rfl
  | cons b rest ih =>
    rw [List.forall_mem_cons] at h
    rw [List.map_cons, insertInOrder, insertInOrder, h.1]
    split
    · rfl
    · rw [List.map_cons, ih h.2]

/-- **What is changed without a change of its order may be sorted before or after.**  The order has
to be the same for the elements of the list only. -/
theorem map_stableSort {xs : List α} (h : ∀ a ∈ xs, ∀ b ∈ xs, le' (g a) (g b) = le a b) :
    (stableSort le xs).map g = stableSort le' (xs.map g) := by
  induction xs with
  | nil => rfl
  | cons a rest ih =>
    have hfirst : ∀ b ∈ stableSort le rest, le' (g a) (g b) = le a b := fun b hb =>
      h a List.mem_cons_self b (List.mem_cons_of_mem _ ((stableSort_perm rest).mem_iff.1 hb))
    have hrest : ∀ b ∈ rest, ∀ c ∈ rest, le' (g b) (g c) = le b c := fun b hb c hc =>
      h b (List.mem_cons_of_mem _ hb) c (List.mem_cons_of_mem _ hc)
    rw [stableSort, map_insertInOrder hfirst, ih hrest, List.map_cons, stableSort]

end Changed

end CallPolicy
