import CallPolicy.Naming
import CallPolicy.Proofs.TypeExpr
import Mathlib.Data.List.Perm.Subperm

/-!
# How declared types are written

The text of a declared type is worked out under a budget, inside the numbers that are being written.
Those numbers are distinct and in the table, so a budget that covers the rest of the table is as
good as any larger one, and the text of a type does not depend on it.  The text is then carried over
from one table to another that holds the first one at an offset.

## Main statements

* `refer_of_le` — a sufficient budget is as good as a larger one.
* `Embedding.typeRef_shift`, `Embedding.canonical?_shift` — types and symbols are written alike over
  a table and over one that holds it at an offset.
* `SameEntries.typeRef` — types are written alike over tables whose entries look alike.
-/

namespace CallPolicy

/-- The numbers that the text of an entry shows: those in the target of an alias, and those in the
arguments of a defined type. -/
def TypeDef.shownIds (d : TypeDef) : List Nat :=
  match d.kind with
  | .alias target => target.ids
  | .defined _ => d.args.flatMap TypeExpr.ids

/-- The numbers that the text of an entry shows are among its numbers. -/
theorem TypeDef.shownIds_subset (d : TypeDef) : d.shownIds ⊆ d.ids := by
  obtain ⟨module, name, args, kind⟩ := d
  cases kind with
  | defined underlying => exact List.subset_append_left _ _
  | «alias» target => exact List.subset_append_right _ _

/-- Shifting by nothing changes nothing. -/
@[simp]
theorem TypeDef.shift_zero (d : TypeDef) : d.shift 0 = d := by
  obtain ⟨module, name, args, kind⟩ := d
  have hargs : args.map (TypeExpr.shift 0) = args := by
    refine (List.map_congr_left ?_).trans (List.map_id' _)
    exact fun arg _ => arg.shift_zero
  cases kind <;> simp [TypeDef.shift, TypeDef.Kind.shift, hargs]

@[simp]
theorem Symbol.shift_zero (s : Symbol) : s.shift 0 = s := by
  obtain ⟨name, module, kind⟩ := s
  cases kind with
  | method receiver signature =>
    simp [Symbol.shift, Symbol.Kind.shift, Binding.shift_zero_of_type receiver.type.shift_zero]
  | _ => simp [Symbol.shift, Symbol.Kind.shift]

/-- Shifts of an entry add up. -/
theorem TypeDef.shift_shift (k l : Nat) (d : TypeDef) : (d.shift k).shift l = d.shift (k + l) := by
  obtain ⟨module, name, args, kind⟩ := d
  cases kind <;>
    simp [TypeDef.shift, TypeDef.Kind.shift, TypeExpr.shift_shift, Function.comp_def]

/-- Shifts of a symbol add up. -/
theorem Symbol.shift_shift (k l : Nat) (s : Symbol) : (s.shift k).shift l = s.shift (k + l) := by
  obtain ⟨name, module, kind⟩ := s
  cases kind with
  | method receiver signature =>
    simp [Symbol.shift, Symbol.Kind.shift, Signature.shift_shift,
      Binding.shift_shift_of_type (receiver.type.shift_shift k l)]
  | _ => simp [Symbol.shift, Symbol.Kind.shift, Signature.shift_shift]

namespace Naming

/-! ## Entries -/

/-- The text of a shifted entry depends on declared types only through the numbers it shows. -/
theorem entryText_shift_congr (n : Naming) {k : Nat} {f g : Nat → String} (d : TypeDef)
    (h : ∀ id ∈ d.shownIds, f (id + k) = g id) :
    n.entryText f (d.shift k) = n.entryText g d := by
  obtain ⟨module, name, args, kind⟩ := d
  cases kind with
  | «alias» target => exact target.render_shift_congr h
  | defined underlying =>
    have hargs : (args.map (TypeExpr.shift k)).map (fun arg => arg.render f) =
        args.map fun arg => arg.render g := by
      rw [List.map_map]
      refine List.map_congr_left ?_
      intro arg harg
      exact arg.render_shift_congr fun id hid => h id (List.mem_flatMap.2 ⟨arg, harg, hid⟩)
    show _ ++ Signature.typeParamsText ((args.map (TypeExpr.shift k)).map _) = _
    rw [hargs]
    rfl

/-- The text of an entry depends on declared types only through the numbers it shows. -/
theorem entryText_congr (n : Naming) {f g : Nat → String} (d : TypeDef)
    (h : ∀ id ∈ d.shownIds, f id = g id) : n.entryText f d = n.entryText g d := by
  have hzero : n.entryText f (d.shift 0) = n.entryText g d := n.entryText_shift_congr d h
  rwa [TypeDef.shift_zero] at hzero

/-! ## The budget -/

/-- The numbers that are being written: distinct, in the table, and all but what the budget
covers. -/
structure Expanding (n : Naming) (budget : Nat) (active : List Nat) : Prop where
  nodup : active.Nodup
  inTable : ∀ id ∈ active, id < n.types.length
  covered : n.types.length ≤ active.length + budget

variable {n : Naming}

/-- Nothing is being written at the start. -/
theorem Expanding.start (n : Naming) : n.Expanding n.types.length [] where
  nodup := .nil
  inTable := fun _ h => absurd h List.not_mem_nil
  covered := Nat.le_add_left _ _

/-- Writing one more entry spends one unit of the budget. -/
theorem Expanding.step {budget : Nat} {active : List Nat} {id : Nat} {d : TypeDef}
    (h : n.Expanding (budget + 1) active) (hid : n.types[id]? = some d) (hnew : id ∉ active) :
    n.Expanding budget (id :: active) where
  nodup := List.nodup_cons.2 ⟨hnew, h.nodup⟩
  inTable := by
    intro i hi
    rcases List.mem_cons.1 hi with rfl | hi
    · exact (List.getElem?_eq_some_iff.1 hid).1
    · exact h.inTable i hi
  covered := by
    have := h.covered
    simp only [List.length_cons]
    omega

/-- Without budget the whole table is being written. -/
theorem Expanding.mem_of_zero {active : List Nat} (h : n.Expanding 0 active) {id : Nat}
    (hid : id < n.types.length) : id ∈ active := by
  have hsub : active ⊆ List.range n.types.length := fun i hi => List.mem_range.2 (h.inTable i hi)
  have hlength : (List.range n.types.length).length ≤ active.length := by
    rw [List.length_range]
    exact h.covered
  exact ((h.nodup.subperm hsub).perm_of_length_le hlength).mem_iff.2 (List.mem_range.2 hid)

/-- One more unit than the budget needed changes nothing. -/
theorem refer_succ {budget : Nat} {active : List Nat} (h : n.Expanding budget active) (id : Nat) :
    n.refer (budget + 1) active id = n.refer budget active id := by
  induction budget generalizing active id with
  | zero =>
    rw [refer, refer]
    cases hid : n.types[id]? with
    | none => rfl
    | some d => exact if_pos (h.mem_of_zero (List.getElem?_eq_some_iff.1 hid).1)
  | succ budget ih =>
    rw [refer, refer]
    cases hid : n.types[id]? with
    | none => rfl
    | some d =>
      by_cases hactive : id ∈ active
      · simp only [if_pos hactive]
      · simp only [if_neg hactive]
        exact n.entryText_congr d fun i _ => ih (h.step hid hactive) i

/-- A sufficient budget is as good as a larger one. -/
theorem refer_of_le {budget budget' : Nat} {active : List Nat} (h : n.Expanding budget active)
    (hle : budget ≤ budget') (id : Nat) :
    n.refer budget' active id = n.refer budget active id := by
  obtain ⟨extra, rfl⟩ := Nat.exists_eq_add_of_le hle
  induction extra with
  | zero => rfl
  | succ extra ih =>
    have hlarger : n.Expanding (budget + extra) active :=
      ⟨h.nodup, h.inTable, by have := h.covered; omega⟩
    rw [← Nat.add_assoc, refer_succ hlarger, ih (Nat.le_add_right _ _)]

/-! ## Tables inside tables -/

/-- The table of `n` stands in that of `n'` at the offset `k`, as far as the numbers `Known` go. -/
structure Embedding (n n' : Naming) (k : Nat) (Known : Nat → Prop) : Prop where
  origins : n'.origins = n.origins
  length : n.types.length ≤ n'.types.length
  entry : ∀ id, Known id → n'.types[id + k]? = (n.types[id]?).map (TypeDef.shift k)
  closed : ∀ id d, Known id → n.types[id]? = some d → ∀ i ∈ d.shownIds, Known i

namespace Embedding

variable {n' : Naming} {k : Nat} {Known : Nat → Prop}

theorem qualified (h : Embedding n n' k Known) (module : ModulePath) (name : String) :
    n'.qualified module name = n.qualified module name := by
  rw [Naming.qualified, Naming.qualified, h.origins]

theorem backReference_shift (h : Embedding n n' k Known) (d : TypeDef) :
    n'.backReference (d.shift k) = n.backReference d := by
  rw [backReference, backReference, h.qualified]
  rfl

theorem entryText_shift (h : Embedding n n' k Known) {f g : Nat → String} (d : TypeDef)
    (hshown : ∀ id ∈ d.shownIds, f (id + k) = g id) :
    n'.entryText f (d.shift k) = n.entryText g d := by
  rw [← n.entryText_shift_congr d hshown]
  unfold entryText
  simp only [h.qualified]

/-- An entry is written alike under the same budget, with the active numbers shifted. -/
theorem refer_shift (h : Embedding n n' k Known) (budget : Nat) (active : List Nat) (id : Nat)
    (hid : Known id) :
    n'.refer budget (active.map (· + k)) (id + k) = n.refer budget active id := by
  induction budget generalizing active id with
  | zero =>
    rw [refer, refer, h.entry id hid]
    cases n.types[id]? with
    | none => rfl
    | some d => exact h.backReference_shift d
  | succ budget ih =>
    rw [refer, refer, h.entry id hid]
    cases hd : n.types[id]? with
    | none => rfl
    | some d =>
      have hactive : id + k ∈ active.map (· + k) ↔ id ∈ active := by simp
      simp only [Option.map_some, hactive, h.backReference_shift]
      refine ite_congr rfl (fun _ => rfl) fun _ => ?_
      exact h.entryText_shift d fun i hi => ih (id :: active) i (h.closed id d hid hd i hi)

/-- A declared type is written alike over both tables. -/
theorem typeRef_shift (h : Embedding n n' k Known) {id : Nat} (hid : Known id) :
    n'.typeRef (id + k) = n.typeRef id := by
  unfold typeRef
  rw [← refer_of_le (.start n) h.length]
  exact h.refer_shift _ [] id hid

theorem typeText_shift (h : Embedding n n' k Known) {t : TypeExpr} (ht : ∀ id ∈ t.ids, Known id) :
    n'.typeText (t.shift k) = n.typeText t :=
  t.render_shift_congr fun id hid => h.typeRef_shift (ht id hid)

theorem signatureText_shift (h : Embedding n n' k Known) {s : Signature}
    (hs : ∀ id ∈ s.ids, Known id) : n'.signatureText (s.shift k) = n.signatureText s :=
  s.render_shift_congr fun id hid => h.typeRef_shift (hs id hid)

/-- A symbol is written alike over both tables. -/
theorem canonical?_shift (h : Embedding n n' k Known) {s : Symbol} (hs : ∀ id ∈ s.ids, Known id) :
    n'.canonical? (s.shift k) = n.canonical? s := by
  obtain ⟨name, module, kind⟩ := s
  cases kind with
  | function signature =>
    show some (_ ++ n'.qualified module name ++ n'.signatureText (signature.shift k)) = _
    rw [h.qualified, h.signatureText_shift hs]
    rfl
  | method receiver signature =>
    have hreceiver : ∀ id ∈ receiver.type.ids, Known id := fun id hid =>
      hs id (List.mem_append_left _ hid)
    have hsignature : ∀ id ∈ signature.ids, Known id := fun id hid =>
      hs id (List.mem_append_right _ hid)
    show some (_ ++ n'.typeText (receiver.type.shift k) ++ _ ++ _ ++
      n'.signatureText (signature.shift k)) = _
    rw [h.typeText_shift hreceiver, h.signatureText_shift hsignature]
    rfl
  | «variable» => rfl
  | constant => rfl
  | typeName => rfl

end Embedding

/-! ## Tables that look alike -/

/-- The two entries look alike, both when they are written and when they are met again. -/
structure SameEntry (n n' : Naming) (d d' : TypeDef) : Prop where
  entryText : ∀ inner, n'.entryText inner d' = n.entryText inner d
  backReference : n'.backReference d' = n.backReference d

/-- The entries of the two tables look alike, one by one. -/
def SameEntries (n n' : Naming) : Prop :=
  List.Forall₂ (n.SameEntry n') n.types n'.types

namespace SameEntries

variable {n' : Naming}

/-- A number leads to entries that look alike, or nowhere in both tables. -/
theorem rel_getElem? (h : n.SameEntries n') (id : Nat) :
    Option.Rel (n.SameEntry n') n.types[id]? n'.types[id]? := by
  have hall : ∀ {ds ds' : TypeTable}, List.Forall₂ (n.SameEntry n') ds ds' → ∀ id : Nat,
      Option.Rel (n.SameEntry n') ds[id]? ds'[id]? := by
    intro ds ds' hds
    induction hds with
    | nil => exact fun _ => .none
    | cons hd _ ih =>
      intro id
      cases id with
      | zero => exact .some hd
      | succ id => exact ih id
  exact hall h id

/-- An entry is written alike over both tables, under the same budget and inside the same
numbers. -/
theorem refer (h : n.SameEntries n') (budget : Nat) (active : List Nat) (id : Nat) :
    n'.refer budget active id = n.refer budget active id := by
  induction budget generalizing active id with
  | zero =>
    have hentry := h.rel_getElem? id
    rw [Naming.refer, Naming.refer]
    generalize n.types[id]? = d, n'.types[id]? = d' at hentry
    cases hentry with
    | none => rfl
    | some hd => exact hd.backReference
  | succ budget ih =>
    have hentry := h.rel_getElem? id
    have hinner : n'.refer budget (id :: active) = n.refer budget (id :: active) :=
      funext fun i => ih (id :: active) i
    rw [Naming.refer, Naming.refer, hinner]
    generalize n.types[id]? = d, n'.types[id]? = d' at hentry
    cases hentry with
    | none => rfl
    | some hd => exact ite_congr rfl (fun _ => hd.backReference) fun _ => hd.entryText _

/-- A declared type is written alike over both tables. -/
theorem typeRef (h : n.SameEntries n') : n'.typeRef = n.typeRef := by
  funext id
  rw [Naming.typeRef, Naming.typeRef, ← h.length_eq]
  exact h.refer _ _ id

theorem typeText (h : n.SameEntries n') (t : TypeExpr) : n'.typeText t = n.typeText t := by
  rw [Naming.typeText, Naming.typeText, h.typeRef]

theorem signatureText (h : n.SameEntries n') (s : Signature) :
    n'.signatureText s = n.signatureText s := by
  rw [Naming.signatureText, Naming.signatureText, h.typeRef]

end SameEntries

end Naming

end CallPolicy
