import CallPolicy.Proofs.Naming
import Mathlib.Logic.Relation

/-!
# Tables without rings

The entries of a type table form a graph: an entry leads to the entries that its text shows, which
are those in the target of an alias and those in the arguments of a defined type.  From an entry
that leads into no ring nothing is ever met inside its own expansion.  Its text is then that of its
table entry, with the entries it shows written in the same way, and no trace is left of what was
being written around it.

## Main statements

* `typeRef_eq_entryText` — without rings a declared type is written as its entry.
* `TypeTable.Acyclic.induct` — induction along a table without rings.
-/

namespace CallPolicy

open Relation

/-! ## The graph of a table -/

namespace TypeTable

/-- The text of the entry `id` shows the entry `i`. -/
def Shows (types : TypeTable) (id i : Nat) : Prop :=
  ∃ d, types[id]? = some d ∧ i ∈ d.shownIds

/-- No ring can be reached from the entry. -/
def AcyclicFrom (types : TypeTable) (id : Nat) : Prop :=
  ∀ i, ReflTransGen types.Shows id i → ¬TransGen types.Shows i i

/-- There is no ring in the table. -/
def Acyclic (types : TypeTable) : Prop :=
  ∀ id, ¬TransGen types.Shows id id

variable {types : TypeTable}

theorem Acyclic.acyclicFrom (h : types.Acyclic) (id : Nat) : types.AcyclicFrom id :=
  fun i _ => h i

/-- A table whose entries show only earlier ones has no rings. -/
theorem acyclic_of_lt (h : ∀ entry ∈ types.zipIdx, ∀ i ∈ entry.1.shownIds, i < entry.2) :
    types.Acyclic := by
  have hshows : ∀ {id i}, types.Shows id i → i < id := by
    rintro id i ⟨d, hd, hi⟩
    exact h (d, id) (List.mem_zipIdx_iff_getElem?.2 hd) i hi
  have hleads : ∀ {id i}, TransGen types.Shows id i → i < id := by
    intro id i hleads
    induction hleads with
    | single hi => exact hshows hi
    | tail _ hi ih => exact Nat.lt_trans (hshows hi) ih
  exact fun id hring => Nat.lt_irrefl id (hleads hring)

/-- What an entry shows leads into no ring either. -/
theorem AcyclicFrom.of_shows {id i : Nat} (h : types.AcyclicFrom id) (hi : types.Shows id i) :
    types.AcyclicFrom i :=
  fun j hj => h j (.head hi hj)

/-- An entry is not among those that lead to it. -/
theorem AcyclicFrom.not_mem {id : Nat} (h : types.AcyclicFrom id) {active : List Nat}
    (hactive : ∀ x ∈ active, TransGen types.Shows x id) : id ∉ active :=
  fun hid => h id .refl (hactive id hid)

/-- The entries around an entry, and itself, lead to what it shows. -/
theorem leads_cons {active : List Nat} {id i : Nat}
    (hactive : ∀ x ∈ active, TransGen types.Shows x id) (hi : types.Shows id i) :
    ∀ x ∈ id :: active, TransGen types.Shows x i := by
  intro x hx
  rcases List.mem_cons.1 hx with rfl | hx
  · exact .single hi
  · exact (hactive x hx).tail hi

end TypeTable

/-! ## Texts -/

namespace Naming

variable {n : Naming}

/-- Without rings the text does not depend on what is being written around it. -/
theorem refer_active_congr {active active' : List Nat} {id : Nat} (budget : Nat)
    (h : n.types.AcyclicFrom id) (hactive : ∀ x ∈ active, TransGen n.types.Shows x id)
    (hactive' : ∀ x ∈ active', TransGen n.types.Shows x id) :
    n.refer budget active id = n.refer budget active' id := by
  induction budget generalizing active active' id with
  | zero => rfl
  | succ budget ih =>
    rw [refer, refer]
    cases hd : n.types[id]? with
    | none => rfl
    | some d =>
      simp only [if_neg (h.not_mem hactive), if_neg (h.not_mem hactive')]
      refine n.entryText_congr d ?_
      intro i hi
      have hshows : n.types.Shows id i := ⟨d, hd, hi⟩
      exact ih (h.of_shows hshows) (TypeTable.leads_cons hactive hshows)
        (TypeTable.leads_cons hactive' hshows)

/-- **Without rings a declared type is written as its entry.** -/
theorem typeRef_eq_entryText {id : Nat} {d : TypeDef} (hd : n.types[id]? = some d)
    (h : n.types.AcyclicFrom id) : n.typeRef id = n.entryText n.typeRef d := by
  have hstart : n.typeRef id = n.refer (n.types.length + 1) [] id :=
    (refer_succ (.start n) id).symm
  rw [hstart, refer, hd]
  refine n.entryText_congr d ?_
  intro i hi
  have hshows : n.types.Shows id i := ⟨d, hd, hi⟩
  refine refer_active_congr _ (h.of_shows hshows) ?_ ?_
  · exact TypeTable.leads_cons (fun _ hx => absurd hx List.not_mem_nil) hshows
  · exact fun _ hx => absurd hx List.not_mem_nil

end Naming

/-! ## Induction -/

/-- Induction along a table without rings: a claim holds of every number if it holds of an entry as
soon as it holds of what the entry shows. -/
theorem TypeTable.Acyclic.induct {types : TypeTable} (h : types.Acyclic) {P : Nat → Prop}
    (step : ∀ id, (∀ i, types.Shows id i → P i) → P id) (id : Nat) : P id := by
  -- the numbers on the way to `id` are distinct, so the way ends before the table is used up
  have hway : ∀ budget active id, Naming.Expanding ⟨types, .empty⟩ budget active →
      (∀ x ∈ active, TransGen types.Shows x id) → P id := by
    intro budget
    induction budget with
    | zero =>
      intro active id hexpanding hactive
      refine step id ?_
      rintro i ⟨d, hd, -⟩
      have hid : id ∈ active := hexpanding.mem_of_zero (List.getElem?_eq_some_iff.1 hd).1
      exact absurd hid ((h.acyclicFrom id).not_mem hactive)
    | succ budget ih =>
      intro active id hexpanding hactive
      refine step id ?_
      rintro i ⟨d, hd, hi⟩
      have hnew : id ∉ active := (h.acyclicFrom id).not_mem hactive
      exact ih (id :: active) i (hexpanding.step hd hnew) (leads_cons hactive ⟨d, hd, hi⟩)
  exact hway _ [] id (.start _) fun _ hx => absurd hx List.not_mem_nil

end CallPolicy
