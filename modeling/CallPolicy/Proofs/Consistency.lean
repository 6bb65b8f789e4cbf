import CallPolicy.Model.Basic

/-!
# What consistency of a model means

A model is consistent exactly if every number in it is in range: the symbols of the occurrences, the
numbers in the entries of the type table, and those in the symbols.

## Main statements

* `isConsistent_iff` — no number is found to dangle exactly if all are in range.
* `inRange_merge_iff` — what is merged into a consistent model decides whether the result is one.
* `inRange_foldl_merge` — consistent models can be merged one after the other.
* `inRange_mapPaths_iff` — file paths make no difference.
-/

namespace CallPolicy.Model

/-- Every number of the model is in range. -/
structure InRange (m : Model) : Prop where
  uses : ∀ p ∈ m.packages, ∀ use ∈ p.uses, use.symbol < m.symbols.length
  types : ∀ d ∈ m.types, ∀ id ∈ d.ids, id < m.types.length
  symbols : ∀ s ∈ m.symbols, ∀ id ∈ s.ids, id < m.types.length

theorem danglingUse?_eq_none_iff (bound : Nat) (p : Package) :
    danglingUse? bound p = none ↔ ∀ use ∈ p.uses, use.symbol < bound := by
  unfold danglingUse?
  simp

theorem danglingDef?_eq_none_iff (bound : Nat) (entry : TypeDef × Nat) :
    danglingDef? bound entry = none ↔ ∀ id ∈ entry.1.ids, id < bound := by
  rw [danglingDef?, Option.map_eq_none_iff, firstOutside?_eq_none_iff]

theorem danglingSymbol?_eq_none_iff (bound : Nat) (s : Symbol) :
    danglingSymbol? bound s = none ↔ ∀ id ∈ s.ids, id < bound := by
  rw [danglingSymbol?, Option.map_eq_none_iff, firstOutside?_eq_none_iff]

/-- What holds of the entries of a table holds of the numbered entries, and the other way round. -/
theorem forall_mem_zipIdx_iff {P : TypeDef → Prop} (types : TypeTable) :
    (∀ entry ∈ types.zipIdx, P entry.1) ↔ ∀ d ∈ types, P d := by
  constructor
  · intro h d hd
    obtain ⟨i, hi⟩ := List.getElem?_of_mem hd
    exact h (d, i) (List.mk_mem_zipIdx_iff_getElem?.2 hi)
  · intro h entry hentry
    exact h _ (List.fst_mem_of_mem_zipIdx hentry)

/-- **No number is found to dangle exactly if all are in range.** -/
theorem isConsistent_iff (m : Model) : m.isConsistent = true ↔ m.InRange := by
  unfold isConsistent findDangling?
  rw [Option.isNone_iff_eq_none, Option.or_eq_none_iff, Option.or_eq_none_iff,
    List.findSome?_eq_none_iff, List.findSome?_eq_none_iff, List.findSome?_eq_none_iff]
  simp only [danglingUse?_eq_none_iff, danglingDef?_eq_none_iff, danglingSymbol?_eq_none_iff]
  rw [forall_mem_zipIdx_iff (P := fun d => ∀ id ∈ d.ids, id < m.types.length)]
  exact ⟨fun ⟨hu, ht, hs⟩ => ⟨hu, ht, hs⟩, fun ⟨hu, ht, hs⟩ => ⟨hu, ht, hs⟩⟩

/-! ## Merged models -/

/-- What holds of the first list holds of the whole exactly if it holds of the second one, as seen
before it was appended. -/
theorem forall_mem_append_map_iff {α : Type} {P Q : α → Prop} {xs ys : List α} {f : α → α}
    (hxs : ∀ x ∈ xs, P x) (hf : ∀ y, P (f y) ↔ Q y) :
    (∀ x ∈ xs ++ ys.map f, P x) ↔ ∀ y ∈ ys, Q y := by
  rw [List.forall_mem_append, List.forall_mem_map]
  simp only [hf]
  exact and_iff_right hxs

/-- Numbers shifted by an offset are in a range that was extended by it exactly if they were in it
before. -/
theorem forall_mem_map_add_lt_iff {ids : List Nat} {offset bound : Nat} :
    (∀ id ∈ ids.map (· + offset), id < offset + bound) ↔ ∀ id ∈ ids, id < bound := by
  rw [List.forall_mem_map]
  have hshift : ∀ id, id + offset < offset + bound ↔ id < bound := by omega
  simp only [hshift]

variable {a b : Model}

/-- **What is merged into a consistent model decides whether the result is consistent.** -/
theorem inRange_merge_iff (ha : a.InRange) : (a.merge b).InRange ↔ b.InRange := by
  have hsymbols : (a.merge b).symbols.length = a.symbols.length + b.symbols.length := by
    simp [merge]
  have htypes : (a.merge b).types.length = a.types.length + b.types.length := by
    simp [merge]
  have huses : (∀ p ∈ (a.merge b).packages, ∀ use ∈ p.uses,
      use.symbol < a.symbols.length + b.symbols.length) ↔
      ∀ p ∈ b.packages, ∀ use ∈ p.uses, use.symbol < b.symbols.length := by
    refine forall_mem_append_map_iff ?_ ?_
    · exact fun p hp use huse => Nat.lt_add_right _ (ha.uses p hp use huse)
    · intro p
      rw [Package.shiftSymbols, List.forall_mem_map]
      simp only [Nat.add_comm _ a.symbols.length, Nat.add_lt_add_iff_left]
  have hdefs : (∀ d ∈ (a.merge b).types, ∀ id ∈ d.ids, id < a.types.length + b.types.length) ↔
      ∀ d ∈ b.types, ∀ id ∈ d.ids, id < b.types.length := by
    refine forall_mem_append_map_iff ?_ ?_
    · exact fun d hd id hid => Nat.lt_add_right _ (ha.types d hd id hid)
    · intro d
      rw [TypeDef.ids_shift, forall_mem_map_add_lt_iff]
  have hsyms : (∀ s ∈ (a.merge b).symbols, ∀ id ∈ s.ids, id < a.types.length + b.types.length) ↔
      ∀ s ∈ b.symbols, ∀ id ∈ s.ids, id < b.types.length := by
    refine forall_mem_append_map_iff ?_ ?_
    · exact fun s hs id hid => Nat.lt_add_right _ (ha.symbols s hs id hid)
    · intro s
      rw [Symbol.ids_shift, forall_mem_map_add_lt_iff]
  rw [← hsymbols] at huses
  rw [← htypes] at hdefs hsyms
  exact ⟨fun h => ⟨huses.1 h.uses, hdefs.1 h.types, hsyms.1 h.symbols⟩,
    fun h => ⟨huses.2 h.uses, hdefs.2 h.types, hsyms.2 h.symbols⟩⟩

/-- Consistent models merged one after the other into a consistent one give a consistent one. -/
theorem inRange_foldl_merge {models : List Model} (ha : a.InRange)
    (hmodels : ∀ b ∈ models, b.InRange) : (models.foldl merge a).InRange := by
  induction models generalizing a with
  | nil => exact ha
  | cons b rest ih =>
    rw [List.forall_mem_cons] at hmodels
    exact ih ((inRange_merge_iff ha).2 hmodels.1) hmodels.2

/-- The empty model holds no number at all. -/
theorem inRange_empty : empty.InRange where
  uses := fun _ hp => absurd hp List.not_mem_nil
  types := fun _ hd => absurd hd List.not_mem_nil
  symbols := fun _ hs => absurd hs List.not_mem_nil

/-- File paths make no difference. -/
theorem inRange_mapPaths_iff (f : Path → Path) (m : Model) :
    (m.mapPaths f).InRange ↔ m.InRange := by
  have huses : (∀ p ∈ (m.mapPaths f).packages, ∀ use ∈ p.uses, use.symbol < m.symbols.length) ↔
      ∀ p ∈ m.packages, ∀ use ∈ p.uses, use.symbol < m.symbols.length := by
    simp [mapPaths, Package.mapPaths]
  exact ⟨fun h => ⟨huses.1 h.uses, h.types, h.symbols⟩,
    fun h => ⟨huses.2 h.uses, h.types, h.symbols⟩⟩

end CallPolicy.Model
