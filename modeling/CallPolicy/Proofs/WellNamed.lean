import CallPolicy.Proofs.Shape
import CallPolicy.Proofs.TypeChars

/-!
# Identifiers and well-named types

Canonical signatures are read by people who know the source language, where a name is an identifier
and no keyword, an origin is a path, and a variadic last parameter is a slice.  A table, a symbol or
a type is *well named* if it keeps to that.

## Main statements

* `not_keyword_qualifiedChars` — a qualified name is no keyword.
* `qualifiedChars_inj` — a qualified name tells its origin and its name.
-/

namespace CallPolicy

/-! ## Identifiers and origins -/

/-- The words that begin the text of a type. -/
def keywords : List String := ["chan", "func", "map", "struct", "interface"]

/-- A letter, a digit or the underscore. -/
def isNameChar (c : Char) : Bool :=
  c.isAlphanum || c == '_'

/-- A character of an origin. -/
def isOriginChar (c : Char) : Bool :=
  isNameChar c || c == '-' || c == '.' || c == '/' || c == '~'

/-- An identifier that is no keyword. -/
def isIdentifier (name : String) : Bool :=
  name.toList.all isNameChar && !name.toList.isEmpty &&
    !name.toList.head?.any Char.isDigit && !keywords.contains name

/-- The empty origin, or a path that does not begin with a dot. -/
def isOrigin (origin : String) : Bool :=
  origin.toList.all isOriginChar && origin.toList.head? != some '.'

/-! ## Types -/

/-- The last of the parameters, if there is one, is a slice. -/
def Binding.endInSlice : List Binding → Bool
  | [] => true
  | [⟨_, .slice _⟩] => true
  | [_] => false
  | _ :: next :: rest => Binding.endInSlice (next :: rest)

mutual

/-- The names in a type are identifiers, and variadic parameters are slices. -/
def TypeExpr.isWellNamed : TypeExpr → Bool
  | .basic name => isIdentifier name
  | .typeParam name => isIdentifier name
  | .named _ => true
  | .pointer elem => elem.isWellNamed
  | .slice elem => elem.isWellNamed
  | .array _ elem => elem.isWellNamed
  | .map key value => key.isWellNamed && value.isWellNamed
  | .chan _ elem => elem.isWellNamed
  | .func signature => signature.isWellNamed
  | .struct fields => Binding.fieldsWellNamed fields
  | .interface methods => Method.allWellNamed methods

/-- The names in a signature are identifiers; those of parameters and results do not count. -/
def Signature.isWellNamed : Signature → Bool
  | ⟨typeParams, params, results, variadic⟩ =>
    TypeParam.allWellNamed typeParams && Binding.typesWellNamed params &&
      Binding.typesWellNamed results && (!variadic || Binding.endInSlice params)

/-- The names in the types of bindings are identifiers. -/
def Binding.typesWellNamed : List Binding → Bool
  | [] => true
  | ⟨_, type⟩ :: rest => type.isWellNamed && Binding.typesWellNamed rest

/-- The names of fields and those in their types are identifiers. -/
def Binding.fieldsWellNamed : List Binding → Bool
  | [] => true
  | ⟨name, type⟩ :: rest =>
    name.all isIdentifier && type.isWellNamed && Binding.fieldsWellNamed rest

/-- The names of type parameters and those in their constraints are identifiers. -/
def TypeParam.allWellNamed : List TypeParam → Bool
  | [] => true
  | ⟨name, constraint⟩ :: rest =>
    isIdentifier name && constraint.isWellNamed && TypeParam.allWellNamed rest

/-- The names of methods and those in their signatures are identifiers. -/
def Method.allWellNamed : List Method → Bool
  | [] => true
  | ⟨name, signature⟩ :: rest =>
    isIdentifier name && signature.isWellNamed && Method.allWellNamed rest

end

namespace Naming

/-- The table holds only well-named types of their own, and no rings among their arguments. -/
structure WellNamed (n : Naming) : Prop where
  defined : n.types.AllDefined
  names : ∀ d ∈ n.types, isIdentifier d.name = true
  origins : ∀ d ∈ n.types, isOrigin (n.origins.origin d.module) = true
  args : ∀ d ∈ n.types, ∀ arg ∈ d.args, arg.isWellNamed = true
  inTable : ∀ d ∈ n.types, ∀ id ∈ d.shownIds, id < n.types.length
  acyclic : n.types.Acyclic

/-- The type is well named and its numbers are in the table. -/
structure Fits (n : Naming) (t : TypeExpr) : Prop where
  wellNamed : t.isWellNamed = true
  inTable : ∀ id ∈ t.ids, id < n.types.length

/-- The signature is well named and its numbers are in the table. -/
structure FitsSignature (n : Naming) (s : Signature) : Prop where
  wellNamed : s.isWellNamed = true
  inTable : ∀ id ∈ s.ids, id < n.types.length

/-- The symbol is well named and its numbers are in the table; a function also has an origin. -/
def FitsSymbol (n : Naming) (s : Symbol) : Prop :=
  isIdentifier s.name = true ∧
    match s.kind with
    | .function signature =>
      isOrigin (n.origins.origin s.module) = true ∧ n.FitsSignature signature
    | .method receiver signature => n.Fits receiver.type ∧ n.FitsSignature signature
    | .variable | .constant | .typeName => True

end Naming

/-! ## Parts of well-named types -/

theorem Binding.typesWellNamed_iff (bs : List Binding) :
    Binding.typesWellNamed bs = true ↔ ∀ b ∈ bs, b.type.isWellNamed = true := by
  induction bs with
  | nil => simp [Binding.typesWellNamed]
  | cons b rest ih =>
    obtain ⟨name, type⟩ := b
    simp [Binding.typesWellNamed, ih]

theorem Binding.fieldsWellNamed_iff (bs : List Binding) :
    Binding.fieldsWellNamed bs = true ↔
      ∀ b ∈ bs, b.name.all isIdentifier = true ∧ b.type.isWellNamed = true := by
  induction bs with
  | nil => simp [Binding.fieldsWellNamed]
  | cons b rest ih =>
    obtain ⟨name, type⟩ := b
    simp [Binding.fieldsWellNamed, ih, and_assoc]

theorem TypeParam.allWellNamed_iff (ps : List TypeParam) :
    TypeParam.allWellNamed ps = true ↔
      ∀ p ∈ ps, isIdentifier p.name = true ∧ p.constraint.isWellNamed = true := by
  induction ps with
  | nil => simp [TypeParam.allWellNamed]
  | cons p rest ih =>
    obtain ⟨name, constraint⟩ := p
    simp [TypeParam.allWellNamed, ih, and_assoc]

theorem Method.allWellNamed_iff (ms : List Method) :
    Method.allWellNamed ms = true ↔
      ∀ m ∈ ms, isIdentifier m.name = true ∧ m.signature.isWellNamed = true := by
  induction ms with
  | nil => simp [Method.allWellNamed]
  | cons m rest ih =>
    obtain ⟨name, signature⟩ := m
    simp [Method.allWellNamed, ih, and_assoc]

/-- A list of parameters that ends in a slice has one as its last. -/
theorem Binding.exists_slice_of_endInSlice {bs : List Binding} {last : Binding}
    (h : Binding.endInSlice (bs ++ [last]) = true) : ∃ elem, last.type = .slice elem := by
  induction bs with
  | nil =>
    obtain ⟨name, type⟩ := last
    cases type with
    | slice elem => exact ⟨elem, rfl⟩
    | _ => cases h
  | cons b rest ih =>
    cases hrest : rest ++ [last] with
    | nil => simp at hrest
    | cons next others =>
      rw [List.cons_append, hrest, Binding.endInSlice] at h
      exact ih (by rw [hrest]; exact h)

namespace Naming

variable {n : Naming}

theorem FitsSignature.part {s : Signature} (h : n.FitsSignature s) {t : TypeExpr}
    (ht : t ∈ s.parts) : n.Fits t := by
  constructor
  · have hs := h.wellNamed
    obtain ⟨typeParams, params, results, variadic⟩ := s
    simp only [Signature.isWellNamed, Bool.and_eq_true, TypeParam.allWellNamed_iff,
      Binding.typesWellNamed_iff] at hs
    exact Signature.forall_mem_parts (P := fun t => t.isWellNamed = true)
      (fun p hp => (hs.1.1.1 p hp).2) hs.1.1.2 hs.1.2 t ht
  · intro id hid
    refine h.inTable id ?_
    rw [Signature.ids_eq]
    exact List.mem_flatMap.2 ⟨t, ht, hid⟩

theorem FitsSignature.typeParam_name {s : Signature} (h : n.FitsSignature s) {p : TypeParam}
    (hp : p ∈ s.typeParams) : isIdentifier p.name = true := by
  have hs := h.wellNamed
  obtain ⟨typeParams, params, results, variadic⟩ := s
  simp only [Signature.isWellNamed, Bool.and_eq_true, TypeParam.allWellNamed_iff] at hs
  exact (hs.1.1.1 p hp).1

/-- The last parameter of a variadic signature is a slice. -/
theorem FitsSignature.exists_slice {s : Signature} (h : n.FitsSignature s)
    (hvariadic : s.variadic = true) {init : List Binding} {last : Binding}
    (hparams : s.params = init ++ [last]) : ∃ elem, last.type = .slice elem := by
  have hs := h.wellNamed
  obtain ⟨typeParams, params, results, variadic⟩ := s
  have hv : variadic = true := hvariadic
  have hp : params = init ++ [last] := hparams
  subst hv hp
  simp only [Signature.isWellNamed, Bool.and_eq_true, Bool.not_true, Bool.false_or] at hs
  exact Binding.exists_slice_of_endInSlice hs.2

theorem Fits.spread {t : TypeExpr} (h : n.Fits t) : n.Fits t.spread := by
  obtain ⟨hwell, hids⟩ := h
  refine ⟨?_, by rw [TypeExpr.ids_spread]; exact hids⟩
  cases t <;> exact hwell

theorem Fits.key {key value : TypeExpr} (h : n.Fits (.map key value)) : n.Fits key :=
  ⟨(Bool.and_eq_true_iff.1 h.wellNamed).1, fun id hid => h.inTable id (List.mem_append_left _ hid)⟩

theorem Fits.value {key value : TypeExpr} (h : n.Fits (.map key value)) : n.Fits value :=
  ⟨(Bool.and_eq_true_iff.1 h.wellNamed).2,
    fun id hid => h.inTable id (List.mem_append_right _ hid)⟩

theorem Fits.func {s : Signature} (h : n.Fits (.func s)) : n.FitsSignature s :=
  ⟨h.wellNamed, h.inTable⟩

theorem Fits.field {fields : List Binding} (h : n.Fits (.struct fields)) {b : Binding}
    (hb : b ∈ fields) : b.name.all isIdentifier = true ∧ n.Fits b.type := by
  obtain ⟨hname, htype⟩ := (Binding.fieldsWellNamed_iff fields).1 h.wellNamed b hb
  refine ⟨hname, htype, fun id hid => h.inTable id ?_⟩
  rw [TypeExpr.ids, Binding.listIds_eq]
  exact List.mem_flatMap.2 ⟨b.type, List.mem_map_of_mem hb, hid⟩

theorem Fits.method {methods : List Method} (h : n.Fits (.interface methods)) {m : Method}
    (hm : m ∈ methods) : isIdentifier m.name = true ∧ n.FitsSignature m.signature := by
  obtain ⟨hname, hsignature⟩ := (Method.allWellNamed_iff methods).1 h.wellNamed m hm
  refine ⟨hname, hsignature, fun id hid => h.inTable id ?_⟩
  rw [TypeExpr.ids, Method.listIds_eq]
  exact List.mem_flatMap.2 ⟨m, hm, hid⟩

/-- The arguments of an entry fit the table. -/
theorem WellNamed.fits_arg (h : n.WellNamed) {d : TypeDef} (hd : d ∈ n.types) {arg : TypeExpr}
    (harg : arg ∈ d.args) : n.Fits arg := by
  refine ⟨h.args d hd arg harg, fun id hid => h.inTable d hd id ?_⟩
  obtain ⟨underlying, hkind⟩ := h.defined d hd
  rw [TypeDef.shownIds, hkind]
  exact List.mem_flatMap.2 ⟨arg, harg, hid⟩

end Naming

/-! ## Qualified names -/

section Qualified

variable {origin name origin' name' : String}

theorem isNameChar_of_mem (hname : isIdentifier name = true) {c : Char} (hc : c ∈ name.toList) :
    isNameChar c = true := by
  simp only [isIdentifier, Bool.and_eq_true, List.all_eq_true] at hname
  exact hname.1.1.1 c hc

theorem isIdentifier_ne_nil (hname : isIdentifier name = true) : name.toList ≠ [] := by
  simp only [isIdentifier, Bool.and_eq_true, Bool.not_eq_true', List.isEmpty_eq_false_iff] at hname
  exact hname.1.1.2

theorem isIdentifier_not_keyword (hname : isIdentifier name = true) : name ∉ keywords := by
  simp only [isIdentifier, Bool.and_eq_true, Bool.not_eq_true', List.contains_eq_mem,
    decide_eq_false_iff_not] at hname
  exact hname.2

theorem isOriginChar_of_isNameChar {c : Char} (h : isNameChar c = true) :
    isOriginChar c = true := by
  simp [isOriginChar, h]

/-- A dot stands in no identifier. -/
theorem dot_not_mem (hname : isIdentifier name = true) : '.' ∉ name.toList := by
  intro hdot
  have h := isNameChar_of_mem hname hdot
  cases h

theorem isOriginChar_of_mem_qualifiedChars (horigin : isOrigin origin = true)
    (hname : isIdentifier name = true) {c : Char} (hc : c ∈ qualifiedChars origin name) :
    isOriginChar c = true := by
  have hname' : c ∈ name.toList → isOriginChar c = true := fun h =>
    isOriginChar_of_isNameChar (isNameChar_of_mem hname h)
  unfold qualifiedChars at hc
  split at hc
  · exact hname' hc
  · rcases List.mem_append.1 hc with hc | hc
    · simp only [isOrigin, Bool.and_eq_true, List.all_eq_true] at horigin
      exact horigin.1 c hc
    · rcases List.mem_cons.1 hc with rfl | hc
      · rfl
      · exact hname' hc

/-- A qualified name begins with a character of an origin other than the dot. -/
theorem exists_qualifiedChars_eq_cons (horigin : isOrigin origin = true)
    (hname : isIdentifier name = true) :
    ∃ c rest, qualifiedChars origin name = c :: rest ∧ isOriginChar c = true ∧ c ≠ '.' := by
  unfold qualifiedChars
  split
  next =>
    obtain ⟨c, rest, hchars⟩ := List.exists_cons_of_ne_nil (isIdentifier_ne_nil hname)
    have hc : c ∈ name.toList := by rw [hchars]; exact List.mem_cons_self
    refine ⟨c, rest, hchars, isOriginChar_of_isNameChar (isNameChar_of_mem hname hc), ?_⟩
    rintro rfl
    exact dot_not_mem hname hc
  next hne =>
    obtain ⟨c, rest, hchars⟩ := List.exists_cons_of_ne_nil hne
    simp only [isOrigin, Bool.and_eq_true, List.all_eq_true, hchars] at horigin
    refine ⟨c, rest ++ '.' :: name.toList, by rw [hchars]; rfl,
      horigin.1 c List.mem_cons_self, ?_⟩
    rintro rfl
    simp at horigin

/-- A qualified name is no keyword. -/
theorem not_keyword_qualifiedChars (hname : isIdentifier name = true) {word : String}
    (hword : word ∈ keywords) : qualifiedChars origin name ≠ word.toList := by
  unfold qualifiedChars
  split
  next =>
    intro h
    rw [String.toList_inj] at h
    exact isIdentifier_not_keyword hname (h ▸ hword)
  next =>
    -- the dot after the origin stands in no keyword
    intro h
    have hdot : '.' ∈ word.toList := by
      rw [← h]
      exact List.mem_append_right _ List.mem_cons_self
    have hnone : ∀ w ∈ keywords, '.' ∉ w.toList := by decide
    exact hnone word hword hdot

/-- **A qualified name tells its origin and its name,** because the last dot stands between them. -/
theorem qualifiedChars_inj (hname : isIdentifier name = true) (hname' : isIdentifier name' = true)
    (h : qualifiedChars origin name = qualifiedChars origin' name') :
    origin = origin' ∧ name = name' := by
  have hdot := dot_not_mem hname
  have hdot' := dot_not_mem hname'
  unfold qualifiedChars at h
  split at h
  next hnil =>
    split at h
    next hnil' => exact ⟨String.toList_inj.1 (hnil.trans hnil'.symm), String.toList_inj.1 h⟩
    next => exact absurd (by rw [h]; simp) hdot
  next =>
    split at h
    next => exact absurd (by rw [← h]; simp) hdot'
    next =>
      rcases List.append_eq_append_iff.1 h with ⟨mid, horigin, hmid⟩ | ⟨mid, horigin, hmid⟩
      · cases mid with
        | nil =>
          injection hmid with _ hmid
          exact ⟨String.toList_inj.1 (by simp [horigin]), String.toList_inj.1 hmid⟩
        | cons c mid =>
          injection hmid with _ hmid
          exact absurd (by rw [hmid]; simp) hdot
      · cases mid with
        | nil =>
          injection hmid with _ hmid
          exact ⟨String.toList_inj.1 (by simp [horigin]), String.toList_inj.1 hmid.symm⟩
        | cons c mid =>
          injection hmid with _ hmid
          exact absurd (by rw [hmid]; simp) hdot'

end Qualified

end CallPolicy
