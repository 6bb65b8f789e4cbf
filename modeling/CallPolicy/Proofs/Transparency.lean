import CallPolicy.Proofs.Expansion
import CallPolicy.Proofs.Occurrence

/-!
# Where an alias stands for its target

In a table without rings an alias is written as its target is.  It stands for its target in almost
every place, so that writing one for the other changes no canonical signature.  The exceptions are
the two holes that look at the constructor of the type in them, which for an alias is not that of
its target: the element of a channel is put in parentheses if it is a receive-only channel, and a
last parameter that takes the rest is spread if it is a slice.

## Main statement

* `Naming.canonical?_fill_alias_iff` — an alias may be replaced by its target exactly where the
  place does not expose it.
-/

namespace CallPolicy

/-! ## Places that expose a type -/

/-- Another type with the same text would be shown in another way. -/
def View.exposes : View → TypeExpr → Bool
  | .spread, .slice _ => true
  | .element dir, t => dir.encloses t
  | _, _ => false

/-- The place of the hole exposes the type. -/
def SymbolContext.exposes (C : SymbolContext) (t : TypeExpr) : Bool :=
  C.view.exposes t

/-! ## Types that look alike from outside -/

/-- From outside the two types look alike exactly if `P` holds. -/
structure Alike (n : Naming) (P : Prop) (a b : TypeExpr) : Prop where
  chars : n.typeChars a = n.typeChars b ↔ P
  spread : n.typeChars a.spread = n.typeChars b.spread ↔ P
  encloses : ∀ dir : ChanDir, dir.encloses a = dir.encloses b

variable {n : Naming} {P : Prop} {a b : TypeExpr}

/-- Every hole shows the same of types that look alike. -/
theorem View.chars_eq_iff (v : View) (h : Alike n P a b) : v.chars n a = v.chars n b ↔ P := by
  cases v with
  | plain => exact h.chars
  | spread => exact h.spread
  | element dir =>
    rw [View.chars, View.chars, h.encloses]
    split
    · rw [List.cons_inj_right, List.append_left_inj]
      exact h.chars
    · exact h.chars

/-- What a place shows decides whether types that differ in it look alike. -/
theorem TypeFrame.alike_fill (frame : TypeFrame)
    (h : frame.view.chars n a = frame.view.chars n b ↔ P) :
    Alike n P (frame.fill a) (frame.fill b) := by
  have hchars : n.typeChars (frame.fill a) = n.typeChars (frame.fill b) ↔ P :=
    ((frame.surrounds n).eq_iff a b).trans h
  refine ⟨hchars, ?_, ?_⟩
  · cases frame with
    | slice => exact h
    | _ => exact hchars
  · intro dir
    cases frame with
    | chan inner => cases dir <;> cases inner <;> rfl
    | _ => cases dir <;> rfl

/-- Types that look alike do so in places at any depth. -/
theorem TypeFrame.alike_fillAll (frames : List TypeFrame) (h : Alike n P a b) :
    Alike n P (TypeFrame.fillAll frames a) (TypeFrame.fillAll frames b) := by
  induction frames with
  | nil => exact h
  | cons frame frames ih => exact frame.alike_fill (frame.view.chars_eq_iff ih)

/-! ## Aliases -/

/-- A hole shows the same of a declared type and of a type with the same text exactly if it does not
expose the latter. -/
theorem View.chars_named_eq_iff {id : Nat} {t : TypeExpr}
    (htext : n.typeChars (.named id) = n.typeChars t) (v : View) :
    v.chars n (.named id) = v.chars n t ↔ v.exposes t = false := by
  cases v with
  | plain => exact iff_of_true htext rfl
  | spread =>
    cases t with
    | slice elem =>
      refine iff_of_false ?_ (by simp [View.exposes])
      -- the brackets are missing on one side
      intro h
      have hslice : n.typeChars (.slice elem) = n.typeChars elem := htext.symm.trans h
      have hlength := congrArg List.length hslice
      rw [n.typeChars_slice, List.length_cons, List.length_cons] at hlength
      omega
    | _ => exact iff_of_true htext rfl
  | element dir =>
    have hnamed : dir.encloses (.named id) = false := by cases dir <;> rfl
    rw [View.chars, View.chars, hnamed, View.exposes]
    cases henc : dir.encloses t with
    | false => exact iff_of_true htext rfl
    | true =>
      refine iff_of_false ?_ (by simp)
      -- the parentheses are missing on one side
      intro h
      have hlength := congrArg List.length (htext.symm.trans h)
      rw [if_pos rfl, List.length_cons, List.length_append, List.length_singleton] at hlength
      omega

/-- Two types with the same text, the first of them a declared type, may be exchanged exactly in the
places that do not expose the second. -/
theorem SymbolContext.canonical?_fill_eq_iff {id : Nat} {t : TypeExpr}
    (htext : n.typeChars (.named id) = n.typeChars t) (C : SymbolContext) :
    n.canonical? (C.fill (.named id)) = n.canonical? (C.fill t) ↔ C.exposes t = false := by
  obtain ⟨name, module, outer, inner⟩ := C
  rcases List.eq_nil_or_concat inner with rfl | ⟨frames, frame, rfl⟩
  · exact (outer.canonical?_eq_iff n name module _ _).trans (outer.view.chars_named_eq_iff htext)
  · have hview : SymbolContext.exposes ⟨name, module, outer, frames.concat frame⟩ t =
        frame.view.exposes t := by
      simp [SymbolContext.exposes, SymbolContext.view]
    have hfill : ∀ u, TypeFrame.fillAll (frames.concat frame) u =
        TypeFrame.fillAll frames (frame.fill u) := by
      intro u
      simp [TypeFrame.fillAll]
    have halike : Alike n (frame.view.exposes t = false) (frame.fill (.named id)) (frame.fill t) :=
      frame.alike_fill (frame.view.chars_named_eq_iff htext)
    rw [hview, SymbolContext.fill, SymbolContext.fill, hfill, hfill]
    refine (outer.canonical?_eq_iff n name module _ _).trans ?_
    exact outer.view.chars_eq_iff (TypeFrame.alike_fillAll frames halike)

namespace Naming

/-- Without rings an alias is written as its target. -/
theorem typeChars_alias (hacyclic : n.types.Acyclic) {id : Nat} {d : TypeDef} {t : TypeExpr}
    (hd : n.types[id]? = some d) (hkind : d.kind = .alias t) :
    n.typeChars (.named id) = n.typeChars t := by
  rw [typeChars, typeText, TypeExpr.render, typeRef_eq_entryText hd (hacyclic.acyclicFrom id),
    entryText, hkind]
  rfl

/-- **An alias may be replaced by its target exactly where the place does not expose the target,**
and each occurrence of an alias in a function or method stands in a place. -/
theorem canonical?_fill_alias_iff (hacyclic : n.types.Acyclic) {id : Nat} {d : TypeDef}
    {t : TypeExpr} (hd : n.types[id]? = some d) (hkind : d.kind = .alias t) :
    (∀ C : SymbolContext,
      n.canonical? (C.fill (.named id)) = n.canonical? (C.fill t) ↔ C.exposes t = false) ∧
    ∀ s : Symbol, s.isCallable = true → ∀ before after, s.ids = before ++ id :: after →
      ∃ C : SymbolContext, C.fill (.named id) = s ∧
        ∀ u, (C.fill u).ids = before ++ (u.ids ++ after) := by
  refine ⟨fun C => C.canonical?_fill_eq_iff (typeChars_alias hacyclic hd hkind), ?_⟩
  intro s hs before after hids
  exact SymbolContext.exists_fill_eq hs hids

/-- An alias for a receive-only channel. -/
def channelAlias : TypeDef := ⟨⟨"m"⟩, "In", [], .alias (.chan .recv (.basic "int"))⟩

/-- An alias for a slice of what the first entry is. -/
def sliceAlias : TypeDef := ⟨⟨"m"⟩, "Ins", [], .alias (.slice (.named 0))⟩

/-- A table with both aliases. -/
def aliases : Naming := ⟨[channelAlias, sliceAlias], .empty⟩

/-- A function with one parameter and a hole for a type at any depth in it. -/
def oneParam (variadic : Bool) (inner : List TypeFrame) : SymbolContext :=
  ⟨"f", ⟨"m"⟩, .function (.param [] [] none [] [] variadic), inner⟩

theorem canonical?_fill_alias_iff_aliases :
    aliases.types.Acyclic ∧ aliases.types[1]? = some sliceAlias ∧
      aliases.canonical? ((oneParam true [.slice, .chan .both]).fill (.named 1)) =
        aliases.canonical? ((oneParam true [.slice, .chan .both]).fill (.slice (.named 0))) ∧
      aliases.canonical? ((oneParam true []).fill (.named 1)) ≠
        aliases.canonical? ((oneParam true []).fill (.slice (.named 0))) := by
  have hacyclic : aliases.types.Acyclic := TypeTable.acyclic_of_lt (by decide)
  have hentry : aliases.types[1]? = some sliceAlias := rfl
  obtain ⟨hplaces, -⟩ := canonical?_fill_alias_iff hacyclic hentry rfl
  refine ⟨hacyclic, hentry, (hplaces _).2 rfl, ?_⟩
  intro h
  have hexposes := (hplaces _).1 h
  cases hexposes

/-- An alias is not written as its target would be where the place exposes the target: as the
element of a channel and as a last parameter that takes the rest. -/
theorem canonical?_alias_exposed :
    aliases.types.Acyclic ∧ aliases.types[0]? = some channelAlias ∧
      aliases.types[1]? = some sliceAlias ∧
      aliases.canonical? ((oneParam false [.chan .both]).fill (.named 0)) =
        some "func m.f(chan <-chan int)" ∧
      aliases.canonical? ((oneParam false [.chan .both]).fill (.chan .recv (.basic "int"))) =
        some "func m.f(chan (<-chan int))" ∧
      aliases.canonical? ((oneParam true []).fill (.named 1)) =
        some "func m.f(...[]<-chan int)" ∧
      aliases.canonical? ((oneParam true []).fill (.slice (.named 0))) =
        some "func m.f(...<-chan int)" := by
  refine ⟨TypeTable.acyclic_of_lt (by decide), rfl, rfl, ?_, ?_, ?_, ?_⟩
  · decide +kernel
  · decide +kernel
  · decide +kernel
  · decide +kernel

end Naming

end CallPolicy
