import CallPolicy.Proofs.Context

/-!
# Occurrences of declared types

The numbers in a symbol are listed in the order in which they are written, so an occurrence of a
declared type is a way to split that list.  Each occurrence stands in a place: the symbol is the
place filled with the declared type, and another type in the hole puts its numbers where the number
was and changes no other.

## Main statement

* `SymbolContext.exists_fill_eq` — each occurrence in a function or method stands in a place.
-/

namespace CallPolicy

/-! ## Splitting lists -/

section Split

variable {α : Type} {xs ys before after : List α} {x : α}

/-- An element of two lists together is one of the first or one of the second. -/
theorem exists_of_append_eq (h : xs ++ ys = before ++ x :: after) :
    (∃ rest, xs = before ++ x :: rest ∧ after = rest ++ ys) ∨
      ∃ rest, ys = rest ++ x :: after ∧ before = xs ++ rest := by
  rcases List.append_eq_append_iff.1 h with ⟨rest, hbefore, hys⟩ | ⟨rest, hxs, hafter⟩
  · exact .inr ⟨rest, hys, hbefore⟩
  · cases rest with
    | nil => exact .inr ⟨[], hafter.symm, by rw [hxs]; simp⟩
    | cons y rest =>
      injection hafter with hxy hafter
      exact .inl ⟨rest, by rw [hxs, hxy], hafter⟩

/-- An element of many lists together is one of one of them. -/
theorem exists_of_flatMap_eq {β : Type} {f : β → List α} {bs : List β}
    (h : bs.flatMap f = before ++ x :: after) :
    ∃ init b rest before' after', bs = init ++ b :: rest ∧ f b = before' ++ x :: after' ∧
      before = init.flatMap f ++ before' ∧ after = after' ++ rest.flatMap f := by
  induction bs generalizing before with
  | nil => simp at h
  | cons b bs ih =>
    rw [List.flatMap_cons] at h
    rcases exists_of_append_eq h with ⟨after', hb, hafter⟩ | ⟨before', hbs, hbefore⟩
    · exact ⟨[], b, bs, before, after', rfl, hb, rfl, hafter⟩
    · obtain ⟨init, c, rest, before'', after', hsplit, hc, hinit, hafter⟩ := ih hbs
      refine ⟨b :: init, c, rest, before'', after', by rw [hsplit]; rfl, hc, ?_, hafter⟩
      rw [hbefore, hinit]
      simp

end Split

/-! ## The numbers around a hole -/

/-- The numbers before the hole of a signature. -/
def SignatureFrame.idsBefore : SignatureFrame → List Nat
  | .typeParam before _ _ _ _ _ => before.flatMap fun p => p.constraint.ids
  | .param typeParams before _ _ _ _ =>
    (typeParams.flatMap fun p => p.constraint.ids) ++ before.flatMap fun b => b.type.ids
  | .result typeParams params before _ _ _ =>
    (typeParams.flatMap fun p => p.constraint.ids) ++
      ((params.flatMap fun b => b.type.ids) ++ before.flatMap fun b => b.type.ids)

/-- The numbers after the hole of a signature. -/
def SignatureFrame.idsAfter : SignatureFrame → List Nat
  | .typeParam _ _ after params results _ =>
    (after.flatMap fun p => p.constraint.ids) ++
      ((params.flatMap fun b => b.type.ids) ++ results.flatMap fun b => b.type.ids)
  | .param _ _ _ after results _ =>
    (after.flatMap fun b => b.type.ids) ++ results.flatMap fun b => b.type.ids
  | .result _ _ _ _ after _ => after.flatMap fun b => b.type.ids

/-- The numbers in a signature, list by list. -/
theorem Signature.ids_mk (typeParams : List TypeParam) (params results : List Binding)
    (variadic : Bool) :
    (⟨typeParams, params, results, variadic⟩ : Signature).ids =
      (typeParams.flatMap fun p => p.constraint.ids) ++
        ((params.flatMap fun b => b.type.ids) ++ results.flatMap fun b => b.type.ids) := by
  rw [Signature.ids, TypeParam.listIds_eq, Binding.listIds_eq, Binding.listIds_eq,
    List.flatMap_map, List.flatMap_map, List.flatMap_map]

theorem SignatureFrame.ids_fill (frame : SignatureFrame) (t : TypeExpr) :
    (frame.fill t).ids = frame.idsBefore ++ (t.ids ++ frame.idsAfter) := by
  cases frame <;> simp [fill, idsBefore, idsAfter, Signature.ids_mk]

/-- The numbers before the hole of a type. -/
def TypeFrame.idsBefore : TypeFrame → List Nat
  | .mapValue key => key.ids
  | .func signature => signature.idsBefore
  | .field before _ _ => before.flatMap fun b => b.type.ids
  | .method before _ signature _ =>
    (before.flatMap fun m => m.signature.ids) ++ signature.idsBefore
  | .pointer | .slice | .array _ | .mapKey _ | .chan _ => []

/-- The numbers after the hole of a type. -/
def TypeFrame.idsAfter : TypeFrame → List Nat
  | .mapKey value => value.ids
  | .func signature => signature.idsAfter
  | .field _ _ after => after.flatMap fun b => b.type.ids
  | .method _ _ signature after =>
    signature.idsAfter ++ after.flatMap fun m => m.signature.ids
  | .pointer | .slice | .array _ | .mapValue _ | .chan _ => []

theorem TypeFrame.ids_fill (frame : TypeFrame) (t : TypeExpr) :
    (frame.fill t).ids = frame.idsBefore ++ (t.ids ++ frame.idsAfter) := by
  cases frame <;>
    simp [fill, idsBefore, idsAfter, TypeExpr.ids, SignatureFrame.ids_fill, Binding.listIds_eq,
      List.flatMap_map, Method.listIds_eq]

/-! ## Places in types and signatures -/

/-- The occurrence of the number between the given others stands in a place of the type. -/
def TypeExpr.HasPlace (t : TypeExpr) (id : Nat) (before after : List Nat) : Prop :=
  ∃ frames, TypeFrame.fillAll frames (.named id) = t ∧
    ∀ u, (TypeFrame.fillAll frames u).ids = before ++ (u.ids ++ after)

/-- The occurrence of the number between the given others stands in a place of the signature. -/
def Signature.HasPlace (s : Signature) (id : Nat) (before after : List Nat) : Prop :=
  ∃ (frame : SignatureFrame) (frames : List TypeFrame),
    frame.fill (TypeFrame.fillAll frames (.named id)) = s ∧
      ∀ u, (frame.fill (TypeFrame.fillAll frames u)).ids = before ++ (u.ids ++ after)

variable {id : Nat}

/-- A place of a type is one of the types around it. -/
theorem TypeExpr.HasPlace.fill {t : TypeExpr} {before after : List Nat}
    (h : t.HasPlace id before after) (frame : TypeFrame) :
    (frame.fill t).HasPlace id (frame.idsBefore ++ before) (after ++ frame.idsAfter) := by
  obtain ⟨frames, rfl, hframes⟩ := h
  refine ⟨frame :: frames, rfl, ?_⟩
  intro u
  show (frame.fill (TypeFrame.fillAll frames u)).ids = _
  rw [frame.ids_fill, hframes]
  simp

/-- A place of a part of a signature is one of the signature. -/
theorem TypeExpr.HasPlace.fillSignature {t : TypeExpr} {before after : List Nat}
    (h : t.HasPlace id before after) (frame : SignatureFrame) :
    (frame.fill t).HasPlace id (frame.idsBefore ++ before) (after ++ frame.idsAfter) := by
  obtain ⟨frames, rfl, hframes⟩ := h
  refine ⟨frame, frames, rfl, ?_⟩
  intro u
  rw [frame.ids_fill, hframes]
  simp

/-- Each occurrence in a signature stands in a place, if those in its parts do. -/
theorem Signature.hasPlace_of_parts {s : Signature}
    (hparts : ∀ t ∈ s.parts, ∀ before after, t.ids = before ++ id :: after →
      t.HasPlace id before after)
    {before after : List Nat} (h : s.ids = before ++ id :: after) :
    s.HasPlace id before after := by
  obtain ⟨typeParams, params, results, variadic⟩ := s
  rw [Signature.ids_mk] at h
  rcases exists_of_append_eq h with ⟨tail, hin, rfl⟩ | ⟨tail, hout, rfl⟩
  · obtain ⟨init, ⟨name, t⟩, rest, before', after', rfl, ht, rfl, rfl⟩ := exists_of_flatMap_eq hin
    have hplace := hparts t (constraint_mem_parts (p := ⟨name, t⟩) (by simp)) _ _ ht
    rw [List.append_assoc]
    exact hplace.fillSignature (.typeParam init name rest params results variadic)
  · rcases exists_of_append_eq hout with ⟨tail', hin, rfl⟩ | ⟨tail', hin, rfl⟩
    · obtain ⟨init, ⟨name, t⟩, rest, before', after', rfl, ht, rfl, rfl⟩ :=
        exists_of_flatMap_eq hin
      have hplace := hparts t (param_mem_parts (b := ⟨name, t⟩) (by simp)) _ _ ht
      rw [← List.append_assoc, List.append_assoc after']
      exact hplace.fillSignature (.param typeParams init name rest results variadic)
    · obtain ⟨init, ⟨name, t⟩, rest, before', after', rfl, ht, rfl, rfl⟩ :=
        exists_of_flatMap_eq hin
      have hplace := hparts t (result_mem_parts (b := ⟨name, t⟩) (by simp)) _ _ ht
      rw [← List.append_assoc (params.flatMap _), ← List.append_assoc]
      exact hplace.fillSignature (.result typeParams params init name rest variadic)

/-- Each occurrence in a type stands in a place. -/
theorem TypeExpr.hasPlace (t : TypeExpr) {before after : List Nat}
    (h : t.ids = before ++ id :: after) : t.HasPlace id before after := by
  induction t using TypeExpr.induct generalizing before after with
  | basic name => exact absurd h (by simp [TypeExpr.ids])
  | typeParam name => exact absurd h (by simp [TypeExpr.ids])
  | named id' =>
    rw [TypeExpr.ids, List.singleton_eq_append_iff] at h
    rcases h with ⟨rfl, h⟩ | ⟨-, h⟩
    · injection h with hid hafter
      subst hid hafter
      exact ⟨[], rfl, fun u => by simp [TypeFrame.fillAll]⟩
    · cases h
  | pointer elem ih =>
    have hplace := (ih h).fill .pointer
    rwa [TypeFrame.idsAfter, List.append_nil] at hplace
  | slice elem ih =>
    have hplace := (ih h).fill .slice
    rwa [TypeFrame.idsAfter, List.append_nil] at hplace
  | array len elem ih =>
    have hplace := (ih h).fill (.array len)
    rwa [TypeFrame.idsAfter, List.append_nil] at hplace
  | map key value ihk ihv =>
    rcases exists_of_append_eq h with ⟨tail, hkey, rfl⟩ | ⟨tail, hvalue, rfl⟩
    · exact (ihk hkey).fill (.mapKey value)
    · have hplace := (ihv hvalue).fill (.mapValue key)
      rwa [TypeFrame.idsAfter, List.append_nil] at hplace
  | chan dir elem ih =>
    have hplace := (ih h).fill (.chan dir)
    rwa [TypeFrame.idsAfter, List.append_nil] at hplace
  | func s ih =>
    obtain ⟨frame, frames, rfl, hids⟩ :=
      Signature.hasPlace_of_parts (fun t ht _ _ hsplit => (ih t ht).1 hsplit) h
    exact ⟨.func frame :: frames, rfl, hids⟩
  | struct fields ih =>
    rw [TypeExpr.ids, Binding.listIds_eq, List.flatMap_map] at h
    obtain ⟨init, ⟨name, t⟩, rest, before', after', rfl, ht, rfl, rfl⟩ := exists_of_flatMap_eq h
    exact (ih ⟨name, t⟩ (by simp) ht).fill (.field init name rest)
  | interface methods ih =>
    rw [TypeExpr.ids, Method.listIds_eq] at h
    obtain ⟨init, ⟨name, s⟩, rest, before', after', rfl, hs, rfl, rfl⟩ := exists_of_flatMap_eq h
    obtain ⟨frame, frames, rfl, hids⟩ := Signature.hasPlace_of_parts
      (fun t ht _ _ hsplit => (ih ⟨name, s⟩ (by simp) t ht).1 hsplit) hs
    refine ⟨.method init name frame rest :: frames, rfl, ?_⟩
    intro u
    show (TypeExpr.interface
      (init ++ ⟨name, frame.fill (TypeFrame.fillAll frames u)⟩ :: rest)).ids = _
    rw [TypeExpr.ids, Method.listIds_eq, List.flatMap_append, List.flatMap_cons, hids]
    simp

theorem Signature.hasPlace (s : Signature) {before after : List Nat}
    (h : s.ids = before ++ id :: after) : s.HasPlace id before after :=
  Signature.hasPlace_of_parts (fun t _ _ _ hsplit => t.hasPlace hsplit) h

/-! ## Places in symbols -/

/-- **Each occurrence in a function or method stands in a place.** -/
theorem SymbolContext.exists_fill_eq {s : Symbol} (hs : s.isCallable = true)
    {before after : List Nat} (h : s.ids = before ++ id :: after) :
    ∃ C : SymbolContext, C.fill (.named id) = s ∧
      ∀ u, (C.fill u).ids = before ++ (u.ids ++ after) := by
  obtain ⟨name, module, kind⟩ := s
  cases kind with
  | function signature =>
    obtain ⟨frame, frames, rfl, hids⟩ := signature.hasPlace h
    exact ⟨⟨name, module, .function frame, frames⟩, rfl, hids⟩
  | method receiver signature =>
    obtain ⟨self, t⟩ := receiver
    rcases exists_of_append_eq h with ⟨tail, ht, rfl⟩ | ⟨tail, hsignature, rfl⟩
    · obtain ⟨frames, rfl, hids⟩ := t.hasPlace ht
      refine ⟨⟨name, module, .receiver self signature, frames⟩, rfl, ?_⟩
      intro u
      show (TypeFrame.fillAll frames u).ids ++ signature.ids = _
      rw [hids]
      simp
    · obtain ⟨frame, frames, rfl, hids⟩ := signature.hasPlace hsignature
      refine ⟨⟨name, module, .method ⟨self, t⟩ frame, frames⟩, rfl, ?_⟩
      intro u
      show t.ids ++ (frame.fill (TypeFrame.fillAll frames u)).ids = _
      rw [hids]
      simp
  | _ => cases hs

end CallPolicy
