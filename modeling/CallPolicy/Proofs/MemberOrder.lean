import CallPolicy.Json.Decoding
import Mathlib.Data.List.Forall2

/-!
# The members of an object in another order

A look at a field gathers all members of its name.  So it sees the same in an object whose members
stand in another order, and in one with further members of other names; and if the values changed,
it sees the changed value.  This is stated once for members that are *rewritten*: each is kept under
its name with a value that may differ, further ones are added, and all are put in some order.

## Main statements

* `Rearranged` — the members of objects anywhere in a value are put in another order.
* `Rewritten.required`, `Rewritten.defaulted` — a field is read from rewritten members as before, if
  its value is.
* `Rewritten.readAhead?` — the same for members that are read ahead.
-/

namespace CallPolicy.Json

/-! ## Rearranged values -/

/-- The second value is the first one, with the members of objects in it in another order. -/
inductive Rearranged : Json → Json → Prop
  | refl (value : Json) : Rearranged value value
  | trans {a b c : Json} (hab : Rearranged a b) (hbc : Rearranged b c) : Rearranged a c
  /-- The members of one object change places. -/
  | members {ms ms' : Members} (h : ms.Perm ms') : Rearranged (.object ms) (.object ms')
  /-- The change is in an item of an array. -/
  | item (before after : List Json) {v w : Json} (h : Rearranged v w) :
    Rearranged (.array (before ++ v :: after)) (.array (before ++ w :: after))
  /-- The change is in a member of an object. -/
  | member (before after : Members) {name : Literal} {v w : Json} (h : Rearranged v w) :
    Rearranged (.object (before ++ (name, v) :: after)) (.object (before ++ (name, w) :: after))

theorem Rearranged.symm {v w : Json} (h : Rearranged v w) : Rearranged w v := by
  induction h with
  | refl value => exact .refl value
  | trans _ _ ihab ihbc => exact .trans ihbc ihab
  | members h => exact .members h.symm
  | item before after _ ih => exact .item before after ih
  | member before after _ ih => exact .member before after ih

/-! ## Rewritten members -/

/-- The second members are the first ones, with values that are related to what they were, and
further ones, in some order. -/
def Rewritten (R : Literal → Json → Json → Prop) (Extra : Literal × Json → Prop)
    (ms ms' : Members) : Prop :=
  ∃ kept added, List.Forall₂ (fun m n => m.1 = n.1 ∧ R m.1 m.2 n.2) ms kept ∧
    (∀ m ∈ added, Extra m) ∧ (kept ++ added).Perm ms'

namespace Rewritten

variable {R : Literal → Json → Json → Prop} {Extra : Literal × Json → Prop} {ms ms' : Members}

/-- Members that change places. -/
theorem of_perm (hR : ∀ name v, R name v v) (h : ms.Perm ms') : Rewritten R Extra ms ms' := by
  refine ⟨ms, [], List.forall₂_same.2 fun m _ => ⟨rfl, hR m.1 m.2⟩, nofun, ?_⟩
  rwa [List.append_nil]

/-- More members may be added than are. -/
theorem imp {Extra' : Literal × Json → Prop} (h : Rewritten R Extra ms ms')
    (hExtra : ∀ m, Extra m → Extra' m) : Rewritten R Extra' ms ms' := by
  obtain ⟨kept, added, hkept, hadded, hperm⟩ := h
  exact ⟨kept, added, hkept, fun m hm => hExtra m (hadded m hm), hperm⟩

/-- One value that changes. -/
theorem of_member (hR : ∀ name v, R name v v) {name : Literal} {v w : Json} (h : R name v w)
    (before after : Members) :
    Rewritten R Extra (before ++ (name, v) :: after) (before ++ (name, w) :: after) := by
  have hsame : ∀ ms : Members, List.Forall₂ (fun m n => m.1 = n.1 ∧ R m.1 m.2 n.2) ms ms :=
    fun ms => List.forall₂_same.2 fun m _ => ⟨rfl, hR m.1 m.2⟩
  refine ⟨before ++ (name, w) :: after, [], ?_, nofun, by rw [List.append_nil]⟩
  exact List.rel_append (hsame before) (.cons ⟨rfl, h⟩ (hsame after))

/-- One member that is added. -/
theorem of_insert (hR : ∀ name v, R name v v) {m : Literal × Json} (h : Extra m)
    (before after : Members) : Rewritten R Extra (before ++ after) (before ++ m :: after) := by
  refine ⟨before ++ after, [m], List.forall₂_same.2 fun m _ => ⟨rfl, hR m.1 m.2⟩, ?_, ?_⟩
  · exact List.forall_mem_singleton.2 h
  · exact List.perm_append_singleton m (before ++ after) |>.trans List.perm_middle.symm

/-- The values under a name that is not added. -/
theorem valuesOf {name : String} (h : Rewritten R Extra ms ms')
    (hname : ∀ m, Extra m → m.1 ≠ some name) :
    ∃ values, List.Forall₂ (R (some name)) (valuesOf name ms) values ∧
      values.Perm (Json.valuesOf name ms') := by
  obtain ⟨kept, added, hkept, hadded, hperm⟩ := h
  refine ⟨Json.valuesOf name kept, ?_, ?_⟩
  · refine List.rel_filterMap ?_ hkept
    rintro ⟨key, v⟩ ⟨_, w⟩ ⟨rfl, hvw⟩
    by_cases hkey : key = some name
    · subst hkey
      simpa using hvw
    · simp [hkey]
  · have hnil : Json.valuesOf name added = [] := by
      refine List.filterMap_eq_nil_iff.2 fun m hm => if_neg (hname m (hadded m hm))
    have hvalues := hperm.filterMap fun m => if m.1 = some name then some m.2 else none
    rw [List.filterMap_append] at hvalues
    rwa [← List.append_nil (Json.valuesOf name kept), ← hnil]

section

variable {α : Type} {decode : Json → Option α} {name : String} {x : α}
  (h : Rewritten R Extra ms ms') (hname : ∀ m, Extra m → m.1 ≠ some name)
  (hdecode : ∀ v w, R (some name) v w → decode v = some x → decode w = some x)
include h hname hdecode

/-- A field that must be there is read as before. -/
theorem required (hms : required decode name ms = some x) :
    Json.required decode name ms' = some x := by
  obtain ⟨values, hvalues, hperm⟩ := h.valuesOf hname
  unfold Json.required at hms
  split at hms
  next v hv =>
    rw [hv] at hvalues
    obtain ⟨w, _, hvw, hnil, rfl⟩ := List.forall₂_cons_left_iff.1 hvalues
    cases hnil
    rw [Json.required, ← List.singleton_perm.1 hperm]
    exact hdecode v w hvw hms
  next => cases hms

/-- A field with a default is read as before. -/
theorem defaulted {default : α} (hms : defaulted default decode name ms = some x) :
    Json.defaulted default decode name ms' = some x := by
  obtain ⟨values, hvalues, hperm⟩ := h.valuesOf hname
  unfold Json.defaulted at hms
  split at hms
  next hv =>
    rw [hv] at hvalues
    cases hvalues
    rw [Json.defaulted, List.nil_perm.1 hperm]
    exact hms
  next v hv =>
    rw [hv] at hvalues
    obtain ⟨w, _, hvw, hnil, rfl⟩ := List.forall₂_cons_left_iff.1 hvalues
    cases hnil
    rw [Json.defaulted, ← List.singleton_perm.1 hperm]
    exact hdecode v w hvw hms
  next => cases hms

end

/-- As many members, if nothing is added. -/
theorem length_eq (h : Rewritten R (fun _ => False) ms ms') : ms'.length = ms.length := by
  obtain ⟨kept, added, hkept, hadded, hperm⟩ := h
  rw [← hperm.length_eq, List.eq_nil_iff_forall_not_mem.2 hadded, List.append_nil,
    hkept.length_eq]

/-- A single member to which nothing is added. -/
theorem exists_eq_singleton {name : Literal} {v : Json}
    (h : Rewritten R (fun _ => False) [(name, v)] ms') : ∃ w, ms' = [(name, w)] ∧ R name v w := by
  obtain ⟨kept, added, hkept, hadded, hperm⟩ := h
  obtain ⟨⟨_, w⟩, _, ⟨rfl, hvw⟩, hnil, rfl⟩ := List.forall₂_cons_left_iff.1 hkept
  cases hnil
  rw [List.eq_nil_iff_forall_not_mem.2 hadded, List.append_nil, List.singleton_perm] at hperm
  exact ⟨w, hperm.symm, hvw⟩

/-- Members whose names pass a test. -/
theorem filter (h : Rewritten R Extra ms ms') (test : Literal → Bool) :
    Rewritten R Extra (ms.filter fun m => test m.1) (ms'.filter fun m => test m.1) := by
  obtain ⟨kept, added, hkept, hadded, hperm⟩ := h
  refine ⟨kept.filter fun m => test m.1, added.filter fun m => test m.1, ?_, ?_, ?_⟩
  · refine List.rel_filter ?_ hkept
    rintro ⟨key, v⟩ ⟨_, w⟩ ⟨rfl, -⟩
    rfl
  · exact fun m hm => hadded m (List.mem_of_mem_filter hm)
  · rw [← List.filter_append]
    exact hperm.filter _

/-- What holds of all members before holds of all after, if changes and additions keep it. -/
theorem forall_mem {P : Literal × Json → Prop} (h : Rewritten R Extra ms ms')
    (hR : ∀ name v w, R name v w → P (name, v) → P (name, w)) (hExtra : ∀ m, Extra m → P m)
    (hms : ∀ m ∈ ms, P m) : ∀ m ∈ ms', P m := by
  obtain ⟨kept, added, hkept, hadded, hperm⟩ := h
  have hP : ∀ m ∈ kept, P m := by
    clear hperm
    induction hkept with
    | nil => exact List.forall_mem_nil P
    | @cons m n ms kept hmn _ ih =>
      rw [List.forall_mem_cons] at hms ⊢
      obtain ⟨key, w⟩ := n
      obtain ⟨rfl, hvw⟩ := hmn
      exact ⟨hR _ _ _ hvw hms.1, ih hms.2⟩
  intro m hm
  rcases List.mem_append.1 (hperm.mem_iff.2 hm) with hm | hm
  · exact hP m hm
  · exact hExtra m (hadded m hm)

/-- Named members stay named. -/
theorem namedMembers? (h : Rewritten R Extra ms ms') (hExtra : ∀ m, Extra m → m.1.isSome = true)
    {named : Members} (hms : namedMembers? ms = some named) :
    named = ms ∧ Json.namedMembers? ms' = some ms' := by
  unfold Json.namedMembers? at hms ⊢
  split at hms
  next hall =>
    rw [List.all_eq_true] at hall
    have hall' : ∀ m ∈ ms', m.1.isSome = true :=
      h.forall_mem (fun _ _ _ _ hname => hname) hExtra hall
    exact ⟨(Option.some.inj hms).symm, if_pos (List.all_eq_true.2 hall')⟩
  next => cases hms

/-- Members that can be read ahead stay so, if changes and additions do. -/
theorem readAhead? {depth : Nat} {own : List String} {others : Members}
    (h : Rewritten R Extra ms ms')
    (hR : ∀ name v w, R name v w → fits depth v = true → fits depth w = true)
    (hExtra : ∀ m, Extra m → fits depth m.2 = true)
    (hms : readAhead? depth own ms = some others) :
    others = ms.filter (fun m => !own.any fun name => m.1 == some name) ∧
      ∃ others', Json.readAhead? depth own ms' = some others' ∧
        Rewritten R Extra others others' := by
  simp only [Json.readAhead?] at hms ⊢
  have hothers := h.filter fun name => !own.any fun n => name == some n
  split at hms
  next hall =>
    cases hms
    rw [List.all_eq_true] at hall
    have hall' := hothers.forall_mem hR hExtra hall
    exact ⟨rfl, _, if_pos (List.all_eq_true.2 hall'), hothers⟩
  next => cases hms

/-- An object that can be read ahead stays so, if changes and additions do. -/
theorem fits {depth : Nat} (h : Rewritten R Extra ms ms')
    (hR : ∀ name v w, R name v w → fits depth v = true → fits depth w = true)
    (hExtra : ∀ m, Extra m → m.1.isSome = true ∧ fits depth m.2 = true)
    (hms : fits (depth + 1) (.object ms) = true) :
    Json.fits (depth + 1) (.object ms') = true := by
  rw [Json.fits, List.all_eq_true] at hms ⊢
  simp only [Bool.and_eq_true] at hms ⊢
  exact h.forall_mem (fun name v w hvw hm => ⟨hm.1, hR name v w hvw hm.2⟩) hExtra hms

end Rewritten

/-- A look at a field that is not among the own ones sees the members that are read ahead. -/
theorem valuesOf_filter {own : List String} {name : String} (hname : name ∉ own) (ms : Members) :
    valuesOf name (ms.filter fun m => !own.any fun n => m.1 == some n) = valuesOf name ms := by
  unfold valuesOf
  rw [List.filterMap_filter]
  refine List.filterMap_congr fun m _ => ?_
  by_cases hm : m.1 = some name
  · simp [hm, hname]
  · simp [hm]

end CallPolicy.Json
