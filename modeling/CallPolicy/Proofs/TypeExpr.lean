import CallPolicy.TypeDef
import CallPolicy.TypeExpr.Render

/-!
# Reasoning about type expressions

Type expressions, signatures and the lists in them are defined by mutual recursion.  This module
brings the traversals of the lists into the form of library functions and gives one induction
principle for types, so that later proofs need no mutual recursion: what holds of the *parts* of
each signature holds of every type.

The text of a signature shows each part, but of a variadic last parameter it shows what its slice
holds.  The principle therefore also gives the claim for the parts *spread*.

## Main statements

* `TypeExpr.induct` — induction over types.
* `TypeExpr.shift_shift` — shifts add up.
* `TypeExpr.render_shift_congr` — a text depends on declared types only through the numbers in the
  type, and shifting the numbers shifts what is asked.
-/

namespace CallPolicy

/-! ## Parts of signatures -/

/-- What a slice holds; any other type as it is. -/
def TypeExpr.spread : TypeExpr → TypeExpr
  | .slice elem => elem
  | t => t

/-- The types in a signature: constraints, then parameters, then results. -/
def Signature.parts (s : Signature) : List TypeExpr :=
  s.typeParams.map TypeParam.constraint ++
    (s.params.map Binding.type ++ s.results.map Binding.type)

theorem Signature.constraint_mem_parts {s : Signature} {p : TypeParam} (h : p ∈ s.typeParams) :
    p.constraint ∈ s.parts :=
  List.mem_append_left _ (List.mem_map_of_mem h)

theorem Signature.param_mem_parts {s : Signature} {b : Binding} (h : b ∈ s.params) :
    b.type ∈ s.parts :=
  List.mem_append_right _ (List.mem_append_left _ (List.mem_map_of_mem h))

theorem Signature.result_mem_parts {s : Signature} {b : Binding} (h : b ∈ s.results) :
    b.type ∈ s.parts :=
  List.mem_append_right _ (List.mem_append_right _ (List.mem_map_of_mem h))

/-- What holds of all constraints, parameters and results holds of all parts. -/
theorem Signature.forall_mem_parts {s : Signature} {P : TypeExpr → Prop}
    (hconstraints : ∀ p ∈ s.typeParams, P p.constraint) (hparams : ∀ b ∈ s.params, P b.type)
    (hresults : ∀ b ∈ s.results, P b.type) : ∀ t ∈ s.parts, P t := by
  intro t ht
  unfold parts at ht
  simp only [List.mem_append, List.mem_map] at ht
  rcases ht with ⟨p, hp, rfl⟩ | ⟨b, hb, rfl⟩ | ⟨b, hb, rfl⟩
  · exact hconstraints p hp
  · exact hparams b hb
  · exact hresults b hb

/-! ## Induction -/

/-- Induction over types.  A signature brings the claim for its parts, as they are and spread. -/
@[elab_as_elim]
theorem TypeExpr.induct {P : TypeExpr → Prop} (basic : ∀ name, P (.basic name))
    (named : ∀ id, P (.named id)) (pointer : ∀ elem, P elem → P (.pointer elem))
    (slice : ∀ elem, P elem → P (.slice elem)) (array : ∀ len elem, P elem → P (.array len elem))
    (map : ∀ key value, P key → P value → P (.map key value))
    (chan : ∀ dir elem, P elem → P (.chan dir elem))
    (func : ∀ s : Signature, (∀ t ∈ s.parts, P t ∧ P t.spread) → P (.func s))
    (struct : ∀ fields : List Binding, (∀ b ∈ fields, P b.type) → P (.struct fields))
    (interface : ∀ methods : List Method,
      (∀ m ∈ methods, ∀ t ∈ m.signature.parts, P t ∧ P t.spread) → P (.interface methods))
    (typeParam : ∀ name, P (.typeParam name)) (t : TypeExpr) : P t := by
  -- a slice is spread to its element, for which the claim was shown before the slice
  have hboth : P t ∧ P t.spread :=
    @TypeExpr.rec (fun t => P t ∧ P t.spread) (fun s => ∀ t ∈ s.parts, P t ∧ P t.spread)
      (fun b => P b.type ∧ P b.type.spread) (fun p => P p.constraint ∧ P p.constraint.spread)
      (fun m => ∀ t ∈ m.signature.parts, P t ∧ P t.spread)
      (fun bs => ∀ b ∈ bs, P b.type ∧ P b.type.spread)
      (fun ms => ∀ m ∈ ms, ∀ t ∈ m.signature.parts, P t ∧ P t.spread)
      (fun ps => ∀ p ∈ ps, P p.constraint ∧ P p.constraint.spread)
      (fun name => ⟨basic name, basic name⟩) (fun id => ⟨named id, named id⟩)
      (fun elem ih => ⟨pointer elem ih.1, pointer elem ih.1⟩)
      (fun elem ih => ⟨slice elem ih.1, ih.1⟩)
      (fun len elem ih => ⟨array len elem ih.1, array len elem ih.1⟩)
      (fun key value ihk ihv => ⟨map key value ihk.1 ihv.1, map key value ihk.1 ihv.1⟩)
      (fun dir elem ih => ⟨chan dir elem ih.1, chan dir elem ih.1⟩)
      (fun s ih => ⟨func s ih, func s ih⟩)
      (fun fields ih =>
        ⟨struct fields fun b hb => (ih b hb).1, struct fields fun b hb => (ih b hb).1⟩)
      (fun methods ih => ⟨interface methods ih, interface methods ih⟩)
      (fun name => ⟨typeParam name, typeParam name⟩)
      (fun _ _ _ _ ihps ihbs ihrs => Signature.forall_mem_parts ihps ihbs ihrs)
      (fun _ _ ih => ih) (fun _ _ ih => ih) (fun _ _ ih => ih)
      (fun _ hb => nomatch hb) (fun _ _ ih ihs => List.forall_mem_cons.2 ⟨ih, ihs⟩)
      (fun _ hm => nomatch hm) (fun _ _ ih ihs => List.forall_mem_cons.2 ⟨ih, ihs⟩)
      (fun _ hp => nomatch hp) (fun _ _ ih ihs => List.forall_mem_cons.2 ⟨ih, ihs⟩) t
  exact hboth.1

/-! ## Lists as library functions -/

theorem Binding.listIds_eq (bs : List Binding) :
    Binding.listIds bs = (bs.map Binding.type).flatMap TypeExpr.ids := by
  induction bs with
  | nil => rfl
  | cons b rest ih =>
    obtain ⟨name, type⟩ := b
    rw [Binding.listIds, ih]
    rfl

theorem TypeParam.listIds_eq (ps : List TypeParam) :
    TypeParam.listIds ps = (ps.map TypeParam.constraint).flatMap TypeExpr.ids := by
  induction ps with
  | nil => rfl
  | cons p rest ih =>
    obtain ⟨name, constraint⟩ := p
    rw [TypeParam.listIds, ih]
    rfl

theorem Method.listIds_eq (ms : List Method) :
    Method.listIds ms = ms.flatMap fun m => m.signature.ids := by
  induction ms with
  | nil => rfl
  | cons m rest ih =>
    obtain ⟨name, signature⟩ := m
    rw [Method.listIds, ih]
    rfl

/-- The numbers in a signature are those in its parts. -/
theorem Signature.ids_eq (s : Signature) : s.ids = s.parts.flatMap TypeExpr.ids := by
  obtain ⟨typeParams, params, results, variadic⟩ := s
  rw [Signature.ids, Binding.listIds_eq, Binding.listIds_eq, TypeParam.listIds_eq, parts,
    List.flatMap_append, List.flatMap_append]

theorem Binding.listShift_eq (k : Nat) (bs : List Binding) :
    Binding.listShift k bs = bs.map (Binding.shift k) := by
  induction bs with
  | nil => rfl
  | cons b rest ih =>
    obtain ⟨name, type⟩ := b
    rw [Binding.listShift, ih]
    rfl

theorem TypeParam.listShift_eq (k : Nat) (ps : List TypeParam) :
    TypeParam.listShift k ps = ps.map fun p => ⟨p.name, p.constraint.shift k⟩ := by
  induction ps with
  | nil => rfl
  | cons p rest ih =>
    obtain ⟨name, constraint⟩ := p
    rw [TypeParam.listShift, ih]
    rfl

theorem Method.listShift_eq (k : Nat) (ms : List Method) :
    Method.listShift k ms = ms.map fun m => ⟨m.name, m.signature.shift k⟩ := by
  induction ms with
  | nil => rfl
  | cons m rest ih =>
    obtain ⟨name, signature⟩ := m
    rw [Method.listShift, ih]
    rfl

/-! ## Texts as library functions -/

/-- The text of a field, given that of its type. -/
def Binding.fieldText (name : Option String) (text : String) : String :=
  match name with
  | none => text
  | some name => name ++ " " ++ text

/-- The text of the last parameter. -/
def Signature.lastText (refer : Nat → String) (variadic : Bool) (t : TypeExpr) : String :=
  if variadic then "..." ++ t.spread.render refer else t.render refer

section Texts

variable (refer : Nat → String)

theorem Binding.typeTexts_eq (bs : List Binding) :
    Binding.typeTexts refer bs = bs.map fun b => b.type.render refer := by
  induction bs with
  | nil => rfl
  | cons b rest ih =>
    obtain ⟨name, type⟩ := b
    rw [Binding.typeTexts, ih]
    rfl

theorem Binding.fieldTexts_eq (bs : List Binding) :
    Binding.fieldTexts refer bs = bs.map fun b => fieldText b.name (b.type.render refer) := by
  induction bs with
  | nil => rfl
  | cons b rest ih =>
    obtain ⟨name, type⟩ := b
    cases name with
    | none => rw [Binding.fieldTexts, ih]; rfl
    | some name => rw [Binding.fieldTexts, ih]; rfl

theorem TypeParam.texts_eq (ps : List TypeParam) :
    TypeParam.texts refer ps = ps.map fun p => p.name ++ " " ++ p.constraint.render refer := by
  induction ps with
  | nil => rfl
  | cons p rest ih =>
    obtain ⟨name, constraint⟩ := p
    rw [TypeParam.texts, ih]
    rfl

theorem Method.texts_eq (ms : List Method) :
    Method.texts refer ms = ms.map fun m => m.name ++ m.signature.render refer := by
  induction ms with
  | nil => rfl
  | cons m rest ih =>
    obtain ⟨name, signature⟩ := m
    rw [Method.texts, ih]
    rfl

theorem Binding.paramTexts_singleton (variadic : Bool) (b : Binding) :
    Binding.paramTexts refer variadic [b] = [Signature.lastText refer variadic b.type] := by
  obtain ⟨name, type⟩ := b
  cases variadic <;> cases type <;> rfl

/-- Only the last parameter depends on whether the list is variadic. -/
theorem Binding.paramTexts_concat (variadic : Bool) (bs : List Binding) (last : Binding) :
    Binding.paramTexts refer variadic (bs ++ [last]) =
      (bs.map fun b => b.type.render refer) ++ [Signature.lastText refer variadic last.type] := by
  induction bs with
  | nil => exact Binding.paramTexts_singleton refer variadic last
  | cons b rest ih =>
    obtain ⟨name, type⟩ := b
    cases hrest : rest ++ [last] with
    | nil => simp at hrest
    | cons next others =>
      rw [hrest] at ih
      rw [List.cons_append, hrest, Binding.paramTexts, ih]
      rfl

end Texts

/-! ## Shifting by nothing -/

theorem Binding.shift_zero_of_type {b : Binding} (h : b.type.shift 0 = b.type) : b.shift 0 = b := by
  obtain ⟨name, type⟩ := b
  exact congrArg (Binding.mk name) h

theorem Signature.shift_zero_of_parts {s : Signature} (h : ∀ t ∈ s.parts, t.shift 0 = t) :
    s.shift 0 = s := by
  obtain ⟨typeParams, params, results, variadic⟩ := s
  rw [Signature.shift, TypeParam.listShift_eq, Binding.listShift_eq, Binding.listShift_eq]
  congr 1
  · refine (List.map_congr_left ?_).trans (List.map_id' _)
    intro ⟨name, constraint⟩ hp
    exact congrArg (TypeParam.mk name) (h _ (constraint_mem_parts hp))
  · refine (List.map_congr_left ?_).trans (List.map_id' _)
    exact fun b hb => Binding.shift_zero_of_type (h _ (param_mem_parts hb))
  · refine (List.map_congr_left ?_).trans (List.map_id' _)
    exact fun b hb => Binding.shift_zero_of_type (h _ (result_mem_parts hb))

/-- Shifting by nothing changes nothing. -/
@[simp]
theorem TypeExpr.shift_zero (t : TypeExpr) : t.shift 0 = t := by
  induction t using TypeExpr.induct with
  | basic name => rfl
  | named id => rfl
  | pointer elem ih => rw [TypeExpr.shift, ih]
  | slice elem ih => rw [TypeExpr.shift, ih]
  | array len elem ih => rw [TypeExpr.shift, ih]
  | map key value ihk ihv => rw [TypeExpr.shift, ihk, ihv]
  | chan dir elem ih => rw [TypeExpr.shift, ih]
  | func s ih => rw [TypeExpr.shift, Signature.shift_zero_of_parts fun t ht => (ih t ht).1]
  | struct fields ih =>
    rw [TypeExpr.shift, Binding.listShift_eq]
    refine congrArg TypeExpr.struct ((List.map_congr_left ?_).trans (List.map_id' _))
    exact fun b hb => Binding.shift_zero_of_type (ih b hb)
  | interface methods ih =>
    rw [TypeExpr.shift, Method.listShift_eq]
    refine congrArg TypeExpr.interface ((List.map_congr_left ?_).trans (List.map_id' _))
    intro ⟨name, signature⟩ hm
    exact congrArg (Method.mk name)
      (Signature.shift_zero_of_parts fun t ht => (ih _ hm t ht).1)
  | typeParam name => rfl

@[simp]
theorem Signature.shift_zero (s : Signature) : s.shift 0 = s :=
  Signature.shift_zero_of_parts fun t _ => t.shift_zero

/-! ## Shifting twice -/

section ShiftTwice

variable {k l : Nat}

theorem Binding.shift_shift_of_type {b : Binding}
    (h : (b.type.shift k).shift l = b.type.shift (k + l)) :
    (b.shift k).shift l = b.shift (k + l) := by
  obtain ⟨name, type⟩ := b
  exact congrArg (Binding.mk name) h

theorem Signature.shift_shift_of_parts {s : Signature}
    (h : ∀ t ∈ s.parts, (t.shift k).shift l = t.shift (k + l)) :
    (s.shift k).shift l = s.shift (k + l) := by
  obtain ⟨typeParams, params, results, variadic⟩ := s
  simp only [Signature.shift, TypeParam.listShift_eq, Binding.listShift_eq, List.map_map]
  congr 1
  · refine List.map_congr_left ?_
    intro p hp
    exact congrArg (TypeParam.mk p.name) (h _ (constraint_mem_parts hp))
  · refine List.map_congr_left ?_
    exact fun b hb => Binding.shift_shift_of_type (h _ (param_mem_parts hb))
  · refine List.map_congr_left ?_
    exact fun b hb => Binding.shift_shift_of_type (h _ (result_mem_parts hb))

/-- **Shifts add up.** -/
theorem TypeExpr.shift_shift (k l : Nat) (t : TypeExpr) :
    (t.shift k).shift l = t.shift (k + l) := by
  induction t using TypeExpr.induct with
  | basic name => rfl
  | named id => exact congrArg TypeExpr.named (Nat.add_assoc id k l)
  | pointer elem ih => rw [TypeExpr.shift, TypeExpr.shift, TypeExpr.shift, ih]
  | slice elem ih => rw [TypeExpr.shift, TypeExpr.shift, TypeExpr.shift, ih]
  | array len elem ih => rw [TypeExpr.shift, TypeExpr.shift, TypeExpr.shift, ih]
  | map key value ihk ihv => rw [TypeExpr.shift, TypeExpr.shift, TypeExpr.shift, ihk, ihv]
  | chan dir elem ih => rw [TypeExpr.shift, TypeExpr.shift, TypeExpr.shift, ih]
  | func s ih =>
    rw [TypeExpr.shift, TypeExpr.shift, TypeExpr.shift,
      Signature.shift_shift_of_parts fun t ht => (ih t ht).1]
  | struct fields ih =>
    simp only [TypeExpr.shift, Binding.listShift_eq, List.map_map]
    refine congrArg TypeExpr.struct (List.map_congr_left ?_)
    exact fun b hb => Binding.shift_shift_of_type (ih b hb)
  | interface methods ih =>
    simp only [TypeExpr.shift, Method.listShift_eq, List.map_map]
    refine congrArg TypeExpr.interface (List.map_congr_left ?_)
    intro m hm
    exact congrArg (Method.mk m.name)
      (Signature.shift_shift_of_parts fun t ht => (ih m hm t ht).1)
  | typeParam name => rfl

theorem Signature.shift_shift (k l : Nat) (s : Signature) :
    (s.shift k).shift l = s.shift (k + l) :=
  Signature.shift_shift_of_parts fun t _ => t.shift_shift k l

end ShiftTwice

/-! ## Texts of changed signatures -/

/-- The signature with `f` applied to each type in it, and `rename` to the names of parameters and
results. -/
def Signature.mapTypes (rename : Option String → Option String) (f : TypeExpr → TypeExpr)
    (s : Signature) : Signature where
  typeParams := s.typeParams.map fun p => ⟨p.name, f p.constraint⟩
  params := s.params.map fun b => ⟨rename b.name, f b.type⟩
  results := s.results.map fun b => ⟨rename b.name, f b.type⟩
  variadic := s.variadic

section MapTypes

variable {f g : Nat → String} {rename : Option String → Option String}
  {change : TypeExpr → TypeExpr}

theorem Binding.paramTexts_map {variadic : Bool} {bs : List Binding}
    (h : ∀ b ∈ bs, (change b.type).render f = b.type.render g ∧
      (change b.type).spread.render f = b.type.spread.render g) :
    Binding.paramTexts f variadic (bs.map fun b => ⟨rename b.name, change b.type⟩) =
      Binding.paramTexts g variadic bs := by
  rcases List.eq_nil_or_concat bs with rfl | ⟨init, last, rfl⟩
  · rfl
  · rw [List.concat_eq_append] at h ⊢
    have hinit : (init.map fun b => (⟨rename b.name, change b.type⟩ : Binding)).map
        (fun b => b.type.render f) = init.map fun b => b.type.render g := by
      rw [List.map_map]
      exact List.map_congr_left fun b hb => (h b (List.mem_append_left _ hb)).1
    obtain ⟨hlast, hspread⟩ := h last (by simp)
    have hlastText : Signature.lastText f variadic (change last.type) =
        Signature.lastText g variadic last.type := by
      unfold Signature.lastText
      rw [hlast, hspread]
    rw [List.map_append, List.map_singleton, Binding.paramTexts_concat, Binding.paramTexts_concat,
      hinit, hlastText]

/-- The text of a signature is that of one whose parts have the same texts, as they are and spread;
the names of parameters and results make no difference. -/
theorem Signature.render_mapTypes {s : Signature}
    (h : ∀ t ∈ s.parts, (change t).render f = t.render g ∧
      (change t).spread.render f = t.spread.render g) :
    (s.mapTypes rename change).render f = s.render g := by
  obtain ⟨typeParams, params, results, variadic⟩ := s
  have htypeParams : TypeParam.texts f (typeParams.map fun p => ⟨p.name, change p.constraint⟩) =
      TypeParam.texts g typeParams := by
    rw [TypeParam.texts_eq, TypeParam.texts_eq, List.map_map]
    refine List.map_congr_left ?_
    intro p hp
    show p.name ++ " " ++ (change p.constraint).render f = _
    rw [(h _ (constraint_mem_parts hp)).1]
  have hresults : Binding.typeTexts f (results.map fun b => ⟨rename b.name, change b.type⟩) =
      Binding.typeTexts g results := by
    rw [Binding.typeTexts_eq, Binding.typeTexts_eq, List.map_map]
    exact List.map_congr_left fun b hb => (h _ (result_mem_parts hb)).1
  rw [Signature.mapTypes, Signature.render, Signature.render, htypeParams, hresults,
    Binding.paramTexts_map fun b hb => h _ (param_mem_parts hb)]

end MapTypes

/-! ## Texts after a shift -/

theorem Signature.shift_eq (k : Nat) (s : Signature) :
    s.shift k = s.mapTypes id (TypeExpr.shift k) := by
  obtain ⟨typeParams, params, results, variadic⟩ := s
  rw [Signature.shift, TypeParam.listShift_eq, Binding.listShift_eq, Binding.listShift_eq]
  rfl

theorem TypeExpr.spread_shift (k : Nat) (t : TypeExpr) : (t.shift k).spread = t.spread.shift k := by
  cases t <;> rfl

theorem TypeExpr.ids_spread (t : TypeExpr) : t.spread.ids = t.ids := by
  cases t <;> rfl

/-- The shape below a channel is the same after a shift. -/
theorem ChanDir.encloses_shift (k : Nat) (dir : ChanDir) (t : TypeExpr) :
    dir.encloses (t.shift k) = dir.encloses t := by
  cases t with
  | chan inner elem => cases dir <;> cases inner <;> rfl
  | _ => cases dir <;> rfl

section Shift

variable {k : Nat} {f g : Nat → String}

/-- The text of a shifted signature, from those of its shifted parts. -/
theorem Signature.render_shift_of_parts {s : Signature}
    (h : ∀ t ∈ s.parts, (t.shift k).render f = t.render g ∧
      (t.spread.shift k).render f = t.spread.render g) :
    (s.shift k).render f = s.render g := by
  rw [Signature.shift_eq]
  refine Signature.render_mapTypes ?_
  intro t ht
  rw [TypeExpr.spread_shift]
  exact h t ht

/-- **A text depends on declared types only through the numbers in the type,** and a shift of the
numbers is a shift of what is asked. -/
theorem TypeExpr.render_shift_congr (t : TypeExpr) (h : ∀ id ∈ t.ids, f (id + k) = g id) :
    (t.shift k).render f = t.render g := by
  induction t using TypeExpr.induct with
  | basic name => rfl
  | named id => exact h id (List.mem_singleton_self id)
  | pointer elem ih => rw [TypeExpr.shift, TypeExpr.render, TypeExpr.render, ih h]
  | slice elem ih => rw [TypeExpr.shift, TypeExpr.render, TypeExpr.render, ih h]
  | array len elem ih => rw [TypeExpr.shift, TypeExpr.render, TypeExpr.render, ih h]
  | map key value ihk ihv =>
    have hkey := ihk fun id hid => h id (List.mem_append_left _ hid)
    have hvalue := ihv fun id hid => h id (List.mem_append_right _ hid)
    rw [TypeExpr.shift, TypeExpr.render, TypeExpr.render, hkey, hvalue]
  | chan dir elem ih =>
    rw [TypeExpr.shift, TypeExpr.render, TypeExpr.render, ChanDir.encloses_shift, ih h]
  | func s ih =>
    rw [TypeExpr.ids, Signature.ids_eq] at h
    have hpart : ∀ t ∈ s.parts, ∀ id ∈ t.ids, f (id + k) = g id := fun t ht id hid =>
      h id (List.mem_flatMap.2 ⟨t, ht, hid⟩)
    rw [TypeExpr.shift, TypeExpr.render, TypeExpr.render, Signature.render_shift_of_parts]
    intro t ht
    exact ⟨(ih t ht).1 (hpart t ht), (ih t ht).2 (by rw [ids_spread]; exact hpart t ht)⟩
  | struct fields ih =>
    rw [TypeExpr.ids, Binding.listIds_eq] at h
    rw [TypeExpr.shift, TypeExpr.render, TypeExpr.render, Binding.listShift_eq,
      Binding.fieldTexts_eq, Binding.fieldTexts_eq, List.map_map]
    refine congrArg (fun texts => "struct\x7b" ++ "; ".intercalate texts ++ "\x7d")
      (List.map_congr_left ?_)
    intro b hb
    refine congrArg (Binding.fieldText b.name) (ih b hb ?_)
    exact fun id hid => h id (List.mem_flatMap.2 ⟨b.type, List.mem_map_of_mem hb, hid⟩)
  | interface methods ih =>
    rw [TypeExpr.ids, Method.listIds_eq] at h
    rw [TypeExpr.shift, TypeExpr.render, TypeExpr.render, Method.listShift_eq,
      Method.texts_eq, Method.texts_eq, List.map_map]
    refine congrArg (fun texts => "interface\x7b" ++ "; ".intercalate texts ++ "\x7d")
      (List.map_congr_left ?_)
    intro m hm
    have hpart : ∀ t ∈ m.signature.parts, ∀ id ∈ t.ids, f (id + k) = g id := fun t ht id hid =>
      h id (List.mem_flatMap.2
        ⟨m, hm, by rw [Signature.ids_eq]; exact List.mem_flatMap.2 ⟨t, ht, hid⟩⟩)
    refine congrArg (m.name ++ ·) (Signature.render_shift_of_parts ?_)
    intro t ht
    exact ⟨(ih m hm t ht).1 (hpart t ht),
      (ih m hm t ht).2 (by rw [ids_spread]; exact hpart t ht)⟩
  | typeParam name => rfl

theorem Signature.render_shift_congr (s : Signature) (h : ∀ id ∈ s.ids, f (id + k) = g id) :
    (s.shift k).render f = s.render g := by
  rw [Signature.ids_eq] at h
  refine Signature.render_shift_of_parts ?_
  intro t ht
  have hpart : ∀ id ∈ t.ids, f (id + k) = g id := fun id hid =>
    h id (List.mem_flatMap.2 ⟨t, ht, hid⟩)
  exact ⟨t.render_shift_congr hpart,
    t.spread.render_shift_congr (by rw [TypeExpr.ids_spread]; exact hpart)⟩

end Shift

end CallPolicy
