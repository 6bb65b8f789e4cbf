import CallPolicy.Model.References
import CallPolicy.Proofs.OrderedMap

/-!
# Which references a package has

A package has a reference at a position exactly if some occurrence there is one of a function or
method, and the last such occurrence gives the signature.  Occurrences of anything else at the same
position, before or after, make no difference.

## Main statements

* `mem_references_iff` — a reference is that of the last call at its position.
* `pairwise_references` — the references stand in strictly increasing order of positions.
-/

namespace CallPolicy.Model

/-! ## Calls -/

/-- The occurrence is one of a function or method. -/
def isCall (m : Model) (use : Occurrence) : Bool :=
  (m.symbols[use.symbol]?).any Symbol.isCallable

/-- The occurrence is the last one of a function or method at the position. -/
def IsLastCall (m : Model) (p : Package) (position : Position) (use : Occurrence) : Prop :=
  ∃ before after, p.uses = before ++ use :: after ∧
    use.position = position ∧ m.isCall use = true ∧
    ∀ later ∈ after, later.position = position → m.isCall later = false

/-- Exactly calls have a signature. -/
theorem isSome_signatureAt? (m : Model) (origins : OriginMap) (use : Occurrence) :
    (m.signatureAt? origins use).isSome = m.isCall use := by
  unfold signatureAt? isCall
  cases m.symbols[use.symbol]? with
  | none => rfl
  | some s => simp [Naming.isSome_canonical?]

/-- What does not call has no signature. -/
theorem signatureAt?_eq_none_iff (m : Model) (origins : OriginMap) (use : Occurrence) :
    m.signatureAt? origins use = none ↔ m.isCall use = false := by
  rw [← isSome_signatureAt? m origins, Option.isSome_eq_false_iff, Option.isNone_iff_eq_none]

/-! ## References -/

/-- A binding stands last for its position among those that calls give exactly if the call is the
last one there. -/
theorem lastBinding_iff (m : Model) (origins : OriginMap) (uses : List Occurrence)
    (position : Position) (signature : String) :
    (∃ before after,
        uses.filterMap (fun use =>
          (m.signatureAt? origins use).map fun signature => (use.position, signature))
          = before ++ (position, signature) :: after ∧
        ∀ b ∈ after, b.1 ≠ position) ↔
      ∃ use before after, uses = before ++ use :: after ∧ use.position = position ∧
        m.signatureAt? origins use = some signature ∧
        ∀ later ∈ after, later.position = position → m.signatureAt? origins later = none := by
  constructor
  · rintro ⟨before, after, hsplit, hafter⟩
    rw [List.filterMap_eq_append_iff] at hsplit
    obtain ⟨u₁, u₂, huses, -, h₂⟩ := hsplit
    rw [List.filterMap_eq_cons_iff] at h₂
    obtain ⟨skipped, use, rest, hu₂, -, huse, hrest⟩ := h₂
    obtain ⟨s, hs, hpair⟩ := Option.map_eq_some_iff.1 huse
    injection hpair with hposition hsignature
    subst hsignature
    refine ⟨use, u₁ ++ skipped, rest, by simp [huses, hu₂], hposition, hs, ?_⟩
    intro later hlater heq
    cases ht : m.signatureAt? origins later with
    | none => rfl
    | some t =>
      have hmem : (later.position, t) ∈ after := by
        rw [← hrest, List.mem_filterMap]
        exact ⟨later, hlater, by rw [ht]; rfl⟩
      exact absurd heq (hafter _ hmem)
  · rintro ⟨use, before, after, rfl, hposition, hs, hlater⟩
    refine ⟨_, _, by rw [List.filterMap_append, List.filterMap_cons, hs, Option.map_some,
      hposition], ?_⟩
    intro b hb
    obtain ⟨later, hmem, hb⟩ := List.mem_filterMap.1 hb
    obtain ⟨t, ht, rfl⟩ := Option.map_eq_some_iff.1 hb
    intro heq
    rw [hlater later hmem heq] at ht
    cases ht

/-- **A reference is that of the last call at its position.** -/
theorem mem_references_iff (m : Model) (origins : OriginMap) (p : Package) (r : Reference) :
    r ∈ m.references origins p ↔
      ∃ use, m.IsLastCall p r.position use ∧ m.signatureAt? origins use = some r.signature := by
  obtain ⟨position, signature⟩ := r
  have hentry : (⟨position, signature⟩ : Reference) ∈ m.references origins p ↔
      (position, signature) ∈ (m.referenceMap origins p).entries := by
    simp [references]
  rw [hentry, OrderedMap.mem_entries_iff, referenceMap_eq, OrderedMap.get?_ofList_eq_some_iff,
    lastBinding_iff]
  simp only [IsLastCall, signatureAt?_eq_none_iff]
  constructor
  · rintro ⟨use, before, after, huses, hposition, hs, hlater⟩
    have hcall : m.isCall use = true := by rw [← isSome_signatureAt? m origins, hs]; rfl
    exact ⟨use, ⟨before, after, huses, hposition, hcall, hlater⟩, hs⟩
  · rintro ⟨use, ⟨before, after, huses, hposition, -, hlater⟩, hs⟩
    exact ⟨use, before, after, huses, hposition, hs, hlater⟩

/-- The references stand in strictly increasing order of positions. -/
theorem pairwise_references (m : Model) (origins : OriginMap) (p : Package) :
    (m.references origins p).Pairwise fun r s => compare r.position s.position = .lt := by
  rw [references, List.pairwise_map]
  exact (m.referenceMap origins p).sorted

end CallPolicy.Model
