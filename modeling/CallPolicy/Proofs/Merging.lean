import CallPolicy.Proofs.Consistency
import CallPolicy.Proofs.Naming
import CallPolicy.Proofs.References

/-!
# Merging keeps meaning

In a merged model the numbers of the second one are shifted.  What they stand for stays the same:
each symbol of either model has the same canonical signature, and each package the same references,
as before.  The tables may hold any rings of entries.

## Main statement

* `merge_preserves_meaning` — symbols and packages mean the same in the merged model.
-/

namespace CallPolicy.Model

variable {a b : Model}

/-! ## The two tables inside the merged one -/

/-- The first table stands at the start of the merged one.  Its entries refer to none of the
second, because their numbers are in range. -/
theorem embedding_merge_left (origins : OriginMap) (ha : a.InRange) :
    Naming.Embedding ⟨a.types, origins⟩ ⟨(a.merge b).types, origins⟩ 0
      (· < a.types.length) where
  origins := rfl
  length := by
    show a.types.length ≤ (a.types ++ _).length
    rw [List.length_append]
    exact Nat.le_add_right _ _
  entry := by
    intro id hid
    show (a.types ++ _)[id]? = (a.types[id]?).map _
    rw [List.getElem?_append_left hid, List.getElem?_eq_getElem hid]
    exact congrArg some (TypeDef.shift_zero _).symm
  closed := by
    intro id d _ hd i hi
    exact ha.types d (List.mem_of_getElem? hd) i (d.shownIds_subset hi)

/-- The second table stands in the merged one after the first. -/
theorem embedding_merge_right (a b : Model) (origins : OriginMap) :
    Naming.Embedding ⟨b.types, origins⟩ ⟨(a.merge b).types, origins⟩ a.types.length
      fun _ => True where
  origins := rfl
  length := by
    show b.types.length ≤ (a.types ++ b.types.map _).length
    rw [List.length_append, List.length_map]
    exact Nat.le_add_left _ _
  entry := by
    intro id _
    show (a.types ++ b.types.map _)[id + a.types.length]? = (b.types[id]?).map _
    rw [List.getElem?_append_right (Nat.le_add_left _ _), Nat.add_sub_cancel, List.getElem?_map]
  closed := fun _ _ _ _ _ _ => trivial

/-! ## Symbols -/

theorem canonical?_merge_left (origins : OriginMap) (ha : a.InRange) {s : Symbol}
    (hs : s ∈ a.symbols) :
    Naming.canonical? ⟨(a.merge b).types, origins⟩ s =
      Naming.canonical? ⟨a.types, origins⟩ s := by
  have h := (embedding_merge_left (b := b) origins ha).canonical?_shift (ha.symbols s hs)
  rwa [Symbol.shift_zero] at h

theorem canonical?_merge_right (a b : Model) (origins : OriginMap) (s : Symbol) :
    Naming.canonical? ⟨(a.merge b).types, origins⟩ (s.shift a.types.length) =
      Naming.canonical? ⟨b.types, origins⟩ s :=
  (embedding_merge_right a b origins).canonical?_shift fun _ _ => trivial

theorem getElem?_symbols_merge_right (a b : Model) (j : Nat) :
    (a.merge b).symbols[a.symbols.length + j]? =
      (b.symbols[j]?).map (Symbol.shift a.types.length) := by
  show (a.symbols ++ b.symbols.map _)[a.symbols.length + j]? = _
  rw [List.getElem?_append_right (Nat.le_add_right _ _), Nat.add_sub_cancel_left,
    List.getElem?_map]

theorem getElem?_packages_merge_right (a b : Model) (j : Nat) :
    (a.merge b).packages[a.packages.length + j]? =
      (b.packages[j]?).map (Package.shiftSymbols a.symbols.length) := by
  show (a.packages ++ b.packages.map _)[a.packages.length + j]? = _
  rw [List.getElem?_append_right (Nat.le_add_right _ _), Nat.add_sub_cancel_left,
    List.getElem?_map]

/-! ## Occurrences and references -/

theorem signatureAt?_merge_left (origins : OriginMap) (ha : a.InRange) {use : Occurrence}
    (huse : use.symbol < a.symbols.length) :
    (a.merge b).signatureAt? origins use = a.signatureAt? origins use := by
  have hsymbol : (a.merge b).symbols[use.symbol]? = a.symbols[use.symbol]? :=
    List.getElem?_append_left huse
  rw [signatureAt?, signatureAt?, hsymbol, List.getElem?_eq_getElem huse]
  exact canonical?_merge_left origins ha (List.getElem_mem huse)

theorem signatureAt?_merge_right (a b : Model) (origins : OriginMap) (use : Occurrence) :
    (a.merge b).signatureAt? origins { use with symbol := use.symbol + a.symbols.length } =
      b.signatureAt? origins use := by
  rw [signatureAt?, signatureAt?, Nat.add_comm, getElem?_symbols_merge_right]
  cases b.symbols[use.symbol]? with
  | none => rfl
  | some s => exact canonical?_merge_right a b origins s

theorem references_merge_left (origins : OriginMap) (ha : a.InRange) {p : Package}
    (hp : p ∈ a.packages) : (a.merge b).references origins p = a.references origins p := by
  rw [references, references, referenceMap_eq, referenceMap_eq]
  refine congrArg (fun bindings => (OrderedMap.ofList bindings).entries.map _)
    (List.filterMap_congr ?_)
  intro use huse
  rw [signatureAt?_merge_left origins ha (ha.uses p hp use huse)]

theorem references_merge_right (a b : Model) (origins : OriginMap) (p : Package) :
    (a.merge b).references origins (p.shiftSymbols a.symbols.length) =
      b.references origins p := by
  rw [references, references, referenceMap_eq, referenceMap_eq]
  refine congrArg (fun bindings => (OrderedMap.ofList bindings).entries.map _) ?_
  show (p.uses.map _).filterMap _ = _
  rw [List.filterMap_map]
  refine List.filterMap_congr ?_
  intro use _
  show ((a.merge b).signatureAt? origins
    { use with symbol := use.symbol + a.symbols.length }).map _ = _
  rw [signatureAt?_merge_right]

/-- **Symbols and packages mean the same in the merged model.** -/
theorem merge_preserves_meaning (b : Model) (origins : OriginMap) (ha : a.isConsistent = true) :
    (∀ (i : Nat) s, a.symbols[i]? = some s →
      (a.merge b).symbols[i]? = some s ∧
        Naming.canonical? ⟨(a.merge b).types, origins⟩ s =
          Naming.canonical? ⟨a.types, origins⟩ s) ∧
    (∀ (j : Nat) s, b.symbols[j]? = some s →
      (a.merge b).symbols[a.symbols.length + j]? = some (s.shift a.types.length) ∧
        Naming.canonical? ⟨(a.merge b).types, origins⟩ (s.shift a.types.length) =
          Naming.canonical? ⟨b.types, origins⟩ s) ∧
    (∀ (i : Nat) p, a.packages[i]? = some p →
      (a.merge b).packages[i]? = some p ∧
        (a.merge b).references origins p = a.references origins p) ∧
    (∀ (j : Nat) p, b.packages[j]? = some p →
      (a.merge b).packages[a.packages.length + j]? =
          some (p.shiftSymbols a.symbols.length) ∧
        (a.merge b).references origins (p.shiftSymbols a.symbols.length) =
          b.references origins p) := by
  have hrange : a.InRange := (isConsistent_iff a).1 ha
  refine ⟨?_, ?_, ?_, ?_⟩
  · intro i s hs
    have hi : i < a.symbols.length := (List.getElem?_eq_some_iff.1 hs).1
    exact ⟨(List.getElem?_append_left hi).trans hs,
      canonical?_merge_left origins hrange (List.mem_of_getElem? hs)⟩
  · intro j s hs
    refine ⟨?_, canonical?_merge_right a b origins s⟩
    rw [getElem?_symbols_merge_right, hs]
    rfl
  · intro i p hp
    have hi : i < a.packages.length := (List.getElem?_eq_some_iff.1 hp).1
    exact ⟨(List.getElem?_append_left hi).trans hp,
      references_merge_left origins hrange (List.mem_of_getElem? hp)⟩
  · intro j p hp
    refine ⟨?_, references_merge_right a b origins p⟩
    rw [getElem?_packages_merge_right, hp]
    rfl

/-- A package that uses the first symbol. -/
def oneUse : Package := { path := "p", uses := [⟨⟨⟨"p.go"⟩, 1, 1⟩, 0⟩] }

/-- A function whose parameter is one of two aliases for each other. -/
def aliasRing : Model where
  packages := [oneUse]
  symbols := [⟨"f", ⟨"m"⟩, .function { params := [⟨none, .named 0⟩] }⟩]
  types := [⟨⟨"m"⟩, "A", [], .alias (.pointer (.named 1))⟩, ⟨⟨"m"⟩, "B", [], .alias (.named 0)⟩]

/-- A method whose receiver has itself as an argument. -/
def argumentRing : Model where
  packages := [oneUse]
  symbols := [⟨"M", ⟨"n"⟩, .method ⟨none, .pointer (.named 0)⟩ {}⟩]
  types := [⟨⟨"n"⟩, "G", [.named 0], .defined (.struct [])⟩]

theorem merge_preserves_meaning_rings :
    aliasRing.isConsistent = true ∧
      (aliasRing.merge argumentRing).references .empty oneUse =
        aliasRing.references .empty oneUse ∧
      (aliasRing.merge argumentRing).references .empty (oneUse.shiftSymbols 1) =
        argumentRing.references .empty oneUse := by
  have hconsistent : aliasRing.isConsistent = true := by decide
  obtain ⟨-, -, hleft, hright⟩ := merge_preserves_meaning argumentRing .empty hconsistent
  exact ⟨hconsistent, (hleft 0 oneUse rfl).2, (hright 0 oneUse rfl).2⟩

end CallPolicy.Model
