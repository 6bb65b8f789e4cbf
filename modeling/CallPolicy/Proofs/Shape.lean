import CallPolicy.Proofs.Expansion

/-!
# What a canonical signature is meant to tell

The *shape* of a type is what its text is meant to say and nothing else.  It leaves out the names of
parameters and results, writes a declared type as its origin, its name and its arguments, and does
not tell apart a predeclared type, a type parameter and a declared type without origin and
arguments.

## Termination

The shape of a type is structural in the type.  A declared type is looked up in the table under a
budget, which the size of the table covers if there is no ring (`shapeOf_named`).

## Main statements

* `Naming.shapeOf_named`, `Naming.typeText_named` — in a table without aliases and rings the shape
  and the text of a declared type are those of its entry.
-/

namespace CallPolicy

/-! ## Shapes -/

mutual

/-- What the text of a type is meant to say. -/
inductive Shape where
  /-- A name after an origin, with arguments; the origin of predeclared names is empty. -/
  | name (origin name : String) (args : List Shape)
  | pointer (elem : Shape)
  | slice (elem : Shape)
  | array (len : Nat) (elem : Shape)
  | map (key value : Shape)
  | chan (dir : ChanDir) (elem : Shape)
  | func (signature : SignatureShape)
  | struct (fields : List (Option String × Shape))
  | interface (methods : List (String × SignatureShape))

/-- What the text of a signature is meant to say. -/
structure SignatureShape where
  typeParams : List (String × Shape)
  params : List Shape
  results : List Shape
  variadic : Bool

end

/-- What a canonical signature is meant to say. -/
inductive SymbolShape where
  | function (module name : String) (signature : SignatureShape)
  | method (receiver : Shape) (name : String) (signature : SignatureShape)

/-! ## Erasing -/

mutual

/-- The shape of a type, where `refer` gives those of declared types. -/
def TypeExpr.erase (refer : Nat → Shape) : TypeExpr → Shape
  | .basic name => .name "" name []
  | .typeParam name => .name "" name []
  | .named id => refer id
  | .pointer elem => .pointer (elem.erase refer)
  | .slice elem => .slice (elem.erase refer)
  | .array len elem => .array len (elem.erase refer)
  | .map key value => .map (key.erase refer) (value.erase refer)
  | .chan dir elem => .chan dir (elem.erase refer)
  | .func signature => .func (signature.erase refer)
  | .struct fields => .struct (Binding.eraseFields refer fields)
  | .interface methods => .interface (Method.eraseAll refer methods)

/-- The shape of a signature.  Without parameters there is nothing that could be variadic. -/
def Signature.erase (refer : Nat → Shape) : Signature → SignatureShape
  | ⟨typeParams, params, results, variadic⟩ =>
    ⟨TypeParam.eraseAll refer typeParams, Binding.eraseTypes refer params,
      Binding.eraseTypes refer results, variadic && !params.isEmpty⟩

/-- The shapes of parameters or results, without their names. -/
def Binding.eraseTypes (refer : Nat → Shape) : List Binding → List Shape
  | [] => []
  | ⟨_, type⟩ :: rest => type.erase refer :: Binding.eraseTypes refer rest

/-- The shapes of fields, with their names. -/
def Binding.eraseFields (refer : Nat → Shape) : List Binding → List (Option String × Shape)
  | [] => []
  | ⟨name, type⟩ :: rest => (name, type.erase refer) :: Binding.eraseFields refer rest

/-- The shapes of type parameters. -/
def TypeParam.eraseAll (refer : Nat → Shape) : List TypeParam → List (String × Shape)
  | [] => []
  | ⟨name, constraint⟩ :: rest =>
    (name, constraint.erase refer) :: TypeParam.eraseAll refer rest

/-- The shapes of methods. -/
def Method.eraseAll (refer : Nat → Shape) : List Method → List (String × SignatureShape)
  | [] => []
  | ⟨name, signature⟩ :: rest => (name, signature.erase refer) :: Method.eraseAll refer rest

end

namespace Naming

/-- The shape of the declared type with number `id`. -/
def shapeRef (n : Naming) : Nat → Nat → Shape
  | 0, _ => .name "" invalidType []
  | budget + 1, id =>
    match n.types[id]? with
    | none => .name "" invalidType []
    | some d =>
      .name (n.origins.origin d.module) d.name (d.args.map (TypeExpr.erase (n.shapeRef budget)))

/-- The shape of a type. -/
def shapeOf (n : Naming) (t : TypeExpr) : Shape :=
  t.erase (n.shapeRef n.types.length)

/-- The shape of a signature. -/
def signatureShape (n : Naming) (s : Signature) : SignatureShape :=
  s.erase (n.shapeRef n.types.length)

/-- The shape of a function or method, where `moduleText` writes the module of a function.  The
module of a method is left out. -/
def symbolShape? (n : Naming) (moduleText : ModulePath → String) (s : Symbol) :
    Option SymbolShape :=
  match s.kind with
  | .function signature =>
    some (.function (moduleText s.module) s.name (n.signatureShape signature))
  | .method receiver signature =>
    some (.method (n.shapeOf receiver.type) s.name (n.signatureShape signature))
  | .variable | .constant | .typeName => none

end Naming

/-! ## Lists as library functions -/

section Lists

variable (refer : Nat → Shape)

theorem Binding.eraseTypes_eq (bs : List Binding) :
    Binding.eraseTypes refer bs = bs.map fun b => b.type.erase refer := by
  induction bs with
  | nil => rfl
  | cons b rest ih =>
    obtain ⟨name, type⟩ := b
    rw [Binding.eraseTypes, ih]
    rfl

theorem Binding.eraseFields_eq (bs : List Binding) :
    Binding.eraseFields refer bs = bs.map fun b => (b.name, b.type.erase refer) := by
  induction bs with
  | nil => rfl
  | cons b rest ih =>
    obtain ⟨name, type⟩ := b
    rw [Binding.eraseFields, ih]
    rfl

theorem TypeParam.eraseAll_eq (ps : List TypeParam) :
    TypeParam.eraseAll refer ps = ps.map fun p => (p.name, p.constraint.erase refer) := by
  induction ps with
  | nil => rfl
  | cons p rest ih =>
    obtain ⟨name, constraint⟩ := p
    rw [TypeParam.eraseAll, ih]
    rfl

theorem Method.eraseAll_eq (ms : List Method) :
    Method.eraseAll refer ms = ms.map fun m => (m.name, m.signature.erase refer) := by
  induction ms with
  | nil => rfl
  | cons m rest ih =>
    obtain ⟨name, signature⟩ := m
    rw [Method.eraseAll, ih]
    rfl

end Lists

/-- The shape of a signature, part by part. -/
theorem Naming.signatureShape_eq (n : Naming) (s : Signature) :
    n.signatureShape s =
      ⟨s.typeParams.map fun p => (p.name, n.shapeOf p.constraint),
        s.params.map fun b => n.shapeOf b.type, s.results.map fun b => n.shapeOf b.type,
        s.variadic && !s.params.isEmpty⟩ := by
  obtain ⟨typeParams, params, results, variadic⟩ := s
  rw [signatureShape, Signature.erase, TypeParam.eraseAll_eq, Binding.eraseTypes_eq,
    Binding.eraseTypes_eq]
  rfl

/-! ## Shapes of declared types -/

section Congr

variable {f g : Nat → Shape}

theorem Signature.erase_congr_of_parts {s : Signature}
    (h : ∀ t ∈ s.parts, t.erase f = t.erase g) : s.erase f = s.erase g := by
  obtain ⟨typeParams, params, results, variadic⟩ := s
  have htypeParams : TypeParam.eraseAll f typeParams = TypeParam.eraseAll g typeParams := by
    rw [TypeParam.eraseAll_eq, TypeParam.eraseAll_eq]
    refine List.map_congr_left ?_
    intro p hp
    rw [h _ (constraint_mem_parts hp)]
  have hparams : Binding.eraseTypes f params = Binding.eraseTypes g params := by
    rw [Binding.eraseTypes_eq, Binding.eraseTypes_eq]
    exact List.map_congr_left fun b hb => h _ (param_mem_parts hb)
  have hresults : Binding.eraseTypes f results = Binding.eraseTypes g results := by
    rw [Binding.eraseTypes_eq, Binding.eraseTypes_eq]
    exact List.map_congr_left fun b hb => h _ (result_mem_parts hb)
  rw [Signature.erase, Signature.erase, htypeParams, hparams, hresults]

/-- A shape depends on declared types only through the numbers in the type. -/
theorem TypeExpr.erase_congr (t : TypeExpr) (h : ∀ id ∈ t.ids, f id = g id) :
    t.erase f = t.erase g := by
  induction t using TypeExpr.induct with
  | basic name => rfl
  | named id => exact h id (List.mem_singleton_self id)
  | pointer elem ih => rw [TypeExpr.erase, TypeExpr.erase, ih h]
  | slice elem ih => rw [TypeExpr.erase, TypeExpr.erase, ih h]
  | array len elem ih => rw [TypeExpr.erase, TypeExpr.erase, ih h]
  | map key value ihk ihv =>
    have hkey := ihk fun id hid => h id (List.mem_append_left _ hid)
    have hvalue := ihv fun id hid => h id (List.mem_append_right _ hid)
    rw [TypeExpr.erase, TypeExpr.erase, hkey, hvalue]
  | chan dir elem ih => rw [TypeExpr.erase, TypeExpr.erase, ih h]
  | func s ih =>
    rw [TypeExpr.ids, Signature.ids_eq] at h
    rw [TypeExpr.erase, TypeExpr.erase, Signature.erase_congr_of_parts]
    exact fun t ht => (ih t ht).1 fun id hid => h id (List.mem_flatMap.2 ⟨t, ht, hid⟩)
  | struct fields ih =>
    rw [TypeExpr.ids, Binding.listIds_eq] at h
    rw [TypeExpr.erase, TypeExpr.erase, Binding.eraseFields_eq, Binding.eraseFields_eq]
    refine congrArg Shape.struct (List.map_congr_left ?_)
    intro b hb
    rw [ih b hb fun id hid => h id (List.mem_flatMap.2 ⟨b.type, List.mem_map_of_mem hb, hid⟩)]
  | interface methods ih =>
    rw [TypeExpr.ids, Method.listIds_eq] at h
    rw [TypeExpr.erase, TypeExpr.erase, Method.eraseAll_eq, Method.eraseAll_eq]
    refine congrArg Shape.interface (List.map_congr_left ?_)
    intro m hm
    rw [Signature.erase_congr_of_parts]
    intro t ht
    refine (ih m hm t ht).1 fun id hid => h id (List.mem_flatMap.2 ⟨m, hm, ?_⟩)
    rw [Signature.ids_eq]
    exact List.mem_flatMap.2 ⟨t, ht, hid⟩
  | typeParam name => rfl

end Congr

/-- Every entry is a type of its own. -/
def TypeTable.AllDefined (types : TypeTable) : Prop :=
  ∀ d ∈ types, ∃ underlying, d.kind = .defined underlying

/-- Among types of their own an entry shows what is in its arguments. -/
theorem TypeTable.AllDefined.shows {types : TypeTable} (h : types.AllDefined) {id i : Nat}
    {d : TypeDef} (hd : types[id]? = some d) {arg : TypeExpr} (harg : arg ∈ d.args)
    (hi : i ∈ arg.ids) : types.Shows id i := by
  obtain ⟨underlying, hkind⟩ := h d (List.mem_of_getElem? hd)
  refine ⟨d, hd, ?_⟩
  rw [TypeDef.shownIds, hkind]
  exact List.mem_flatMap.2 ⟨arg, harg, hi⟩

namespace Naming

open Relation

variable {n : Naming}

/-- One more unit than the budget needed changes no shape. -/
theorem shapeRef_succ (hdefined : n.types.AllDefined) (hacyclic : n.types.Acyclic) {budget : Nat}
    {active : List Nat} {id : Nat} (h : n.Expanding budget active)
    (hactive : ∀ x ∈ active, TransGen n.types.Shows x id) :
    n.shapeRef (budget + 1) id = n.shapeRef budget id := by
  have hnew : id ∉ active := (hacyclic.acyclicFrom id).not_mem hactive
  induction budget generalizing active id with
  | zero =>
    rw [shapeRef, shapeRef]
    cases hd : n.types[id]? with
    | none => rfl
    | some d => exact absurd (h.mem_of_zero (List.getElem?_eq_some_iff.1 hd).1) hnew
  | succ budget ih =>
    rw [shapeRef, shapeRef]
    cases hd : n.types[id]? with
    | none => rfl
    | some d =>
      refine congrArg (Shape.name _ _) (List.map_congr_left ?_)
      intro arg harg
      refine arg.erase_congr ?_
      intro i hi
      have hleads := TypeTable.leads_cons hactive (hdefined.shows hd harg hi)
      exact ih (h.step hd hnew) hleads ((hacyclic.acyclicFrom i).not_mem hleads)

/-- **The shape of a declared type is that of its entry.** -/
theorem shapeOf_named (hdefined : n.types.AllDefined) (hacyclic : n.types.Acyclic) {id : Nat}
    {d : TypeDef} (hd : n.types[id]? = some d) :
    n.shapeOf (.named id) =
      .name (n.origins.origin d.module) d.name (d.args.map n.shapeOf) := by
  have hstart : n.shapeRef n.types.length id = n.shapeRef (n.types.length + 1) id :=
    (shapeRef_succ hdefined hacyclic (.start n) fun _ hx => absurd hx List.not_mem_nil).symm
  rw [shapeOf, TypeExpr.erase, hstart, shapeRef, hd]
  rfl

/-- The text of a type of its own is its qualified name with the texts of its arguments. -/
theorem typeText_named (hdefined : n.types.AllDefined) (hacyclic : n.types.Acyclic) {id : Nat}
    {d : TypeDef} (hd : n.types[id]? = some d) :
    n.typeText (.named id) =
      n.qualified d.module d.name ++ Signature.typeParamsText (d.args.map n.typeText) := by
  obtain ⟨underlying, hkind⟩ := hdefined d (List.mem_of_getElem? hd)
  rw [typeText, TypeExpr.render, typeRef_eq_entryText hd (hacyclic.acyclicFrom id), entryText,
    hkind]
  rfl

end Naming

end CallPolicy
