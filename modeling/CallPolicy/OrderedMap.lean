/-!
# Finite maps in key order

A finite map is the list of its entries in strictly increasing key order, so a key occurs once and
the order in which entries are listed is fixed by the keys alone.  Denylists, origin rules, the
references of a package and the comments of its files are such maps.

## Termination

Insertion and look-up are structural in the list of entries.

## Main statements

* `get?_insert` — a look-up after an insertion.
* `get?_insertNew` — a look-up after an insertion that keeps what is there.
* `get?_ofList_cons` — of two bindings of one key the later one holds.
* `sorted` is a field: every map is in key order.
-/

namespace CallPolicy

variable {κ α : Type} [Ord κ]

/-- A finite map, as its entries in strictly increasing key order. -/
structure OrderedMap (κ α : Type) [Ord κ] where
  entries : List (κ × α)
  sorted : entries.Pairwise fun a b => compare a.1 b.1 = .lt

namespace OrderedMap

/-! ## Entries -/

/-- The entries with `key` bound to `value`, where a bound key gets the value `merge old value`. -/
def insertEntry (merge : α → α → α) (key : κ) (value : α) : List (κ × α) → List (κ × α)
  | [] => [(key, value)]
  | (k, v) :: rest =>
    match compare key k with
    | .lt => (key, value) :: (k, v) :: rest
    | .eq => (k, merge v value) :: rest
    | .gt => (k, v) :: insertEntry merge key value rest

/-- The value bound to `key` among the entries. -/
def findEntry (key : κ) : List (κ × α) → Option α
  | [] => none
  | (k, v) :: rest => if compare key k = .eq then some v else findEntry key rest

/-- A key of the entries after an insertion is the inserted key or was there before. -/
theorem mem_keys_insertEntry [Std.TransOrd κ] {merge : α → α → α} {key : κ} {value : α}
    {entries : List (κ × α)} {e : κ × α} (h : e ∈ insertEntry merge key value entries) :
    compare e.1 key = .eq ∨ ∃ d ∈ entries, d.1 = e.1 := by
  induction entries with
  | nil =>
    simp only [insertEntry, List.mem_singleton] at h
    subst h
    exact .inl Std.ReflCmp.compare_self
  | cons d rest ih =>
    obtain ⟨k, v⟩ := d
    unfold insertEntry at h
    split at h
    · rcases List.mem_cons.1 h with rfl | h
      · exact .inl Std.ReflCmp.compare_self
      · exact .inr ⟨e, h, rfl⟩
    · rcases List.mem_cons.1 h with rfl | h
      · exact .inr ⟨(k, v), by simp, rfl⟩
      · exact .inr ⟨e, List.mem_cons_of_mem _ h, rfl⟩
    · rcases List.mem_cons.1 h with rfl | h
      · exact .inr ⟨(k, v), by simp, rfl⟩
      · rcases ih h with heq | ⟨d, hd, hde⟩
        · exact .inl heq
        · exact .inr ⟨d, List.mem_cons_of_mem _ hd, hde⟩

/-- Insertion keeps the entries in key order. -/
theorem pairwise_insertEntry [Std.TransOrd κ] (merge : α → α → α) (key : κ) (value : α)
    {entries : List (κ × α)} (h : entries.Pairwise fun a b => compare a.1 b.1 = .lt) :
    (insertEntry merge key value entries).Pairwise fun a b => compare a.1 b.1 = .lt := by
  induction entries with
  | nil => simp [insertEntry]
  | cons d rest ih =>
    obtain ⟨k, v⟩ := d
    rw [List.pairwise_cons] at h
    unfold insertEntry
    split
    next hlt =>
      refine List.pairwise_cons.2 ⟨?_, List.pairwise_cons.2 h⟩
      intro b hb
      rcases List.mem_cons.1 hb with rfl | hb
      · exact hlt
      · exact Std.TransCmp.lt_trans hlt (h.1 b hb)
    next => exact List.pairwise_cons.2 h
    next hgt =>
      refine List.pairwise_cons.2 ⟨?_, ih h.2⟩
      intro b hb
      rcases mem_keys_insertEntry hb with heq | ⟨d, hd, hde⟩
      · exact Std.TransCmp.lt_of_lt_of_eq (Std.OrientedCmp.gt_iff_lt.1 hgt)
          (Std.OrientedCmp.eq_symm heq)
      · exact hde ▸ h.1 d hd

/-- A look-up after an insertion sees the inserted value at the key and what was there elsewhere. -/
theorem findEntry_insertEntry [Std.TransOrd κ] (merge : α → α → α) (key : κ) (value : α)
    {entries : List (κ × α)} (h : entries.Pairwise fun a b => compare a.1 b.1 = .lt) (key' : κ) :
    findEntry key' (insertEntry merge key value entries) =
      if compare key' key = .eq then
        some (match findEntry key entries with | some old => merge old value | none => value)
      else findEntry key' entries := by
  induction entries with
  | nil => simp [insertEntry, findEntry]
  | cons d rest ih =>
    obtain ⟨k, v⟩ := d
    rw [List.pairwise_cons] at h
    unfold insertEntry
    split
    next hlt =>
      have hnone : findEntry key ((k, v) :: rest) = none := by
        have hrest : ∀ es : List (κ × α), (∀ e ∈ es, compare key e.1 = .lt) →
            findEntry key es = none := by
          intro es hes
          induction es with
          | nil => rfl
          | cons e es ihes =>
            have he := hes e (by simp)
            simp only [findEntry, he]
            exact ihes fun x hx => hes x (List.mem_cons_of_mem _ hx)
        apply hrest
        intro e he
        rcases List.mem_cons.1 he with rfl | he
        · exact hlt
        · exact Std.TransCmp.lt_trans hlt (h.1 e he)
      simp only [hnone]
      rw [findEntry]
    next heq =>
      have hk : compare key' key = .eq ↔ compare key' k = .eq :=
        ⟨fun hk => Std.TransCmp.eq_trans hk heq,
          fun hk => Std.TransCmp.eq_trans hk (Std.OrientedCmp.eq_symm heq)⟩
      by_cases hc : compare key' k = .eq
      · simp [findEntry, hc, hk.2 hc, heq]
      · simp [findEntry, hc, mt hk.1 hc]
    next hgt =>
      have hne : compare key k ≠ .eq := by simp [hgt]
      by_cases hc : compare key' k = .eq
      · have hk : compare key' key ≠ .eq := fun hk =>
          hne (Std.TransCmp.eq_trans (Std.OrientedCmp.eq_symm hk) hc)
        simp [findEntry, hc, hk]
      · simp only [findEntry, hc, hne, if_false]
        exact ih h.2

/-! ## Maps -/

/-- The map without entries. -/
def empty : OrderedMap κ α := ⟨[], .nil⟩

instance : EmptyCollection (OrderedMap κ α) := ⟨empty⟩
instance : Inhabited (OrderedMap κ α) := ⟨empty⟩

instance [DecidableEq κ] [DecidableEq α] : DecidableEq (OrderedMap κ α) := fun a b =>
  decidable_of_iff (a.entries = b.entries) <| by
    cases a; cases b; simp

/-- The value bound to `key`. -/
def get? (m : OrderedMap κ α) (key : κ) : Option α :=
  findEntry key m.entries

/-- The number of entries. -/
def size (m : OrderedMap κ α) : Nat :=
  m.entries.length

/-- The map has no entries. -/
def isEmpty (m : OrderedMap κ α) : Bool :=
  m.entries.isEmpty

/-- The values in key order. -/
def values (m : OrderedMap κ α) : List α :=
  m.entries.map Prod.snd

@[simp]
theorem get?_empty (key : κ) : (empty : OrderedMap κ α).get? key = none := rfl

variable [Std.TransOrd κ]

/-- The map with `key` bound to `value`, whatever it was bound to. -/
def insert (m : OrderedMap κ α) (key : κ) (value : α) : OrderedMap κ α :=
  ⟨insertEntry (fun _ new => new) key value m.entries, pairwise_insertEntry _ key value m.sorted⟩

/-- The map with `key` bound to `value`, unless it is bound already. -/
def insertNew (m : OrderedMap κ α) (key : κ) (value : α) : OrderedMap κ α :=
  ⟨insertEntry (fun old _ => old) key value m.entries, pairwise_insertEntry _ key value m.sorted⟩

/-- The map with the given bindings; of two bindings of one key the later one holds.  They are
added from the last to the first, so bindings in key order take one step each. -/
def ofList (bindings : List (κ × α)) : OrderedMap κ α :=
  bindings.foldr (fun b m => m.insertNew b.1 b.2) empty

/-- A look-up after an insertion. -/
theorem get?_insert (m : OrderedMap κ α) (key key' : κ) (value : α) :
    (m.insert key value).get? key' =
      if compare key' key = .eq then some value else m.get? key' := by
  simp only [get?, insert, findEntry_insertEntry _ key value m.sorted key']
  split
  · split <;> rfl
  · rfl

/-- A look-up after an insertion that keeps what is there. -/
theorem get?_insertNew (m : OrderedMap κ α) (key key' : κ) (value : α) :
    (m.insertNew key value).get? key' =
      if compare key' key = .eq then some ((m.get? key).getD value) else m.get? key' := by
  simp only [get?, insertNew, findEntry_insertEntry _ key value m.sorted key']
  split
  · split <;> simp_all
  · rfl

/-- A binding holds unless a later one has its key. -/
theorem get?_ofList_cons (b : κ × α) (bindings : List (κ × α)) (key : κ) :
    (ofList (b :: bindings)).get? key =
      if compare key b.1 = .eq then some (((ofList bindings).get? b.1).getD b.2)
      else (ofList bindings).get? key :=
  get?_insertNew _ b.1 key b.2

end OrderedMap

end CallPolicy
