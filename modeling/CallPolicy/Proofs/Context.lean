import CallPolicy.Proofs.TypeChars

/-!
# Places of types

A *place* is a symbol, a type or a signature with a hole for a type.  A place in a symbol is one in
its receiver or its signature and, from the outside in, the places of types around the hole.  The
text around a hole does not depend on what the hole is filled with, but two kinds of holes look at
the constructor of the type in them: the element of a channel may need parentheses, and a last
parameter that takes the rest shows what its slice holds.  Each hole has a *view* that says how it
shows its type.

## Main statements

* `SignatureFrame.surrounds`, `TypeFrame.surrounds` — a place only surrounds what its view shows.
* `SymbolFrame.canonical?_eq_iff` — so does a symbol.
-/

namespace CallPolicy

/-! ## Places -/

/-- A signature with a hole for a type. -/
inductive SignatureFrame where
  | typeParam (before : List TypeParam) (name : String) (after : List TypeParam)
      (params results : List Binding) (variadic : Bool)
  | param (typeParams : List TypeParam) (before : List Binding) (name : Option String)
      (after results : List Binding) (variadic : Bool)
  | result (typeParams : List TypeParam) (params before : List Binding) (name : Option String)
      (after : List Binding) (variadic : Bool)

/-- The signature with the type in its hole. -/
def SignatureFrame.fill : SignatureFrame → TypeExpr → Signature
  | .typeParam before name after params results variadic, t =>
    ⟨before ++ ⟨name, t⟩ :: after, params, results, variadic⟩
  | .param typeParams before name after results variadic, t =>
    ⟨typeParams, before ++ ⟨name, t⟩ :: after, results, variadic⟩
  | .result typeParams params before name after variadic, t =>
    ⟨typeParams, params, before ++ ⟨name, t⟩ :: after, variadic⟩

/-- A type with a hole for a type directly below it. -/
inductive TypeFrame where
  | pointer
  | slice
  | array (len : Nat)
  | mapKey (value : TypeExpr)
  | mapValue (key : TypeExpr)
  | chan (dir : ChanDir)
  | func (signature : SignatureFrame)
  | field (before : List Binding) (name : Option String) (after : List Binding)
  | method (before : List Method) (name : String) (signature : SignatureFrame)
      (after : List Method)

/-- The type with another one in its hole. -/
def TypeFrame.fill : TypeFrame → TypeExpr → TypeExpr
  | .pointer, t => .pointer t
  | .slice, t => .slice t
  | .array len, t => .array len t
  | .mapKey value, t => .map t value
  | .mapValue key, t => .map key t
  | .chan dir, t => .chan dir t
  | .func signature, t => .func (signature.fill t)
  | .field before name after, t => .struct (before ++ ⟨name, t⟩ :: after)
  | .method before name signature after, t =>
    .interface (before ++ ⟨name, signature.fill t⟩ :: after)

/-- A type with a hole at any depth, the outermost place first. -/
def TypeFrame.fillAll (frames : List TypeFrame) (t : TypeExpr) : TypeExpr :=
  frames.foldr TypeFrame.fill t

/-- A function or method with a hole for a type in its receiver or its signature. -/
inductive SymbolFrame where
  | function (signature : SignatureFrame)
  | receiver (name : Option String) (signature : Signature)
  | method (self : Binding) (signature : SignatureFrame)

/-- The kind of symbol with the type in its hole. -/
def SymbolFrame.fill : SymbolFrame → TypeExpr → Symbol.Kind
  | .function signature, t => .function (signature.fill t)
  | .receiver name signature, t => .method ⟨name, t⟩ signature
  | .method self signature, t => .method self (signature.fill t)

/-- A function or method with a hole for a type anywhere in it. -/
structure SymbolContext where
  name : String
  module : ModulePath
  outer : SymbolFrame
  inner : List TypeFrame

/-- The symbol with the type in its hole. -/
def SymbolContext.fill (C : SymbolContext) (t : TypeExpr) : Symbol :=
  ⟨C.name, C.module, C.outer.fill (TypeFrame.fillAll C.inner t)⟩

/-! ## Views -/

/-- How a hole shows the type in it. -/
inductive View where
  | plain
  | spread
  | element (dir : ChanDir)

/-- A last parameter that takes the rest is spread. -/
def SignatureFrame.view : SignatureFrame → View
  | .param _ _ _ [] _ true => .spread
  | _ => .plain

/-- The view of the hole of a type. -/
def TypeFrame.view : TypeFrame → View
  | .chan dir => .element dir
  | .func signature | .method _ _ signature _ => signature.view
  | _ => .plain

/-- The view of the hole of a symbol. -/
def SymbolFrame.view : SymbolFrame → View
  | .function signature | .method _ signature => signature.view
  | .receiver _ _ => .plain

/-- The view of the hole, which is that of the innermost place. -/
def SymbolContext.view (C : SymbolContext) : View :=
  (C.inner.getLast?.map TypeFrame.view).getD C.outer.view

/-- What is shown of the type. -/
def View.chars (n : Naming) : View → TypeExpr → List Char
  | .plain, t => n.typeChars t
  | .spread, t => n.typeChars t.spread
  | .element dir, t =>
    if dir.encloses t then '(' :: (n.typeChars t ++ [')']) else n.typeChars t

/-! ## Surrounding -/

/-- One text is the other between two that are always the same. -/
def Surrounds {α : Type} (outer inner : α → List Char) : Prop :=
  ∃ before after, ∀ x, outer x = before ++ (inner x ++ after)

namespace Surrounds

variable {α : Type} {outer middle inner : α → List Char}

theorem refl (inner : α → List Char) : Surrounds inner inner :=
  ⟨[], [], fun x => by simp⟩

theorem trans (h : Surrounds outer middle) (h' : Surrounds middle inner) :
    Surrounds outer inner := by
  obtain ⟨before, after, houter⟩ := h
  obtain ⟨before', after', hmiddle⟩ := h'
  refine ⟨before ++ before', after' ++ after, ?_⟩
  intro x
  rw [houter, hmiddle]
  simp

/-- Surrounded texts are equal exactly if they are so inside. -/
theorem eq_iff (h : Surrounds outer inner) (x y : α) : outer x = outer y ↔ inner x = inner y := by
  obtain ⟨before, after, houter⟩ := h
  rw [houter, houter, List.append_right_inj, List.append_left_inj]

/-- An item of a list is surrounded by the others. -/
theorem intercalate (sep : List Char) (xs ys : List (List Char)) (h : Surrounds outer inner) :
    Surrounds (fun x => sep.intercalate (xs ++ outer x :: ys)) inner := by
  refine trans ?_ h
  induction xs with
  | nil =>
    cases ys with
    | nil => exact ⟨[], [], fun x => by simp⟩
    | cons y ys => exact ⟨[], sep ++ sep.intercalate (y :: ys), fun x => by simp⟩
  | cons z zs ih =>
    obtain ⟨before, after, hitems⟩ := ih
    refine ⟨z ++ (sep ++ before), after, ?_⟩
    intro x
    show sep.intercalate (z :: (zs ++ outer x :: ys)) = _
    dsimp only at hitems
    rw [List.intercalate_cons_of_ne_nil (by simp), hitems]
    simp

/-- So is an item of a list in square brackets. -/
theorem bracketed (xs ys : List (List Char)) (h : Surrounds outer inner) :
    Surrounds (fun x => CallPolicy.bracketed (xs ++ outer x :: ys)) inner := by
  obtain ⟨before, after, hitems⟩ := intercalate [',', ' '] xs ys h
  refine ⟨'[' :: before, after ++ [']'], ?_⟩
  intro x
  dsimp only at hitems ⊢
  rw [CallPolicy.bracketed, if_neg (by simp), hitems]
  simp

end Surrounds

/-! ## Signatures -/

variable (n : Naming)

/-- The parameters around one that is not last. -/
theorem shownParams_append_cons (variadic : Bool) (bs : List Binding) (b next : Binding)
    (rest : List Binding) :
    Naming.shownParams variadic (bs ++ b :: next :: rest) =
      (bs.map fun b => (false, b.type)) ++
        (false, b.type) :: Naming.shownParams variadic (next :: rest) := by
  induction bs with
  | nil => rfl
  | cons c bs ih =>
    cases bs with
    | nil => rfl
    | cons c' bs =>
      show (false, c.type) :: Naming.shownParams variadic ((c' :: bs) ++ b :: next :: rest) = _
      rw [ih]
      rfl

theorem surrounds_resultsChars (ts us : List TypeExpr) :
    Surrounds (fun t => n.resultsChars (ts ++ t :: us)) n.typeChars := by
  by_cases hlength : ts.length + us.length = 0
  · have hts : ts = [] := List.length_eq_zero_iff.1 (by omega)
    have hus : us = [] := List.length_eq_zero_iff.1 (by omega)
    subst hts hus
    exact ⟨[' '], [], fun t => by simp [Naming.resultsChars]⟩
  · obtain ⟨before, after, hitems⟩ :=
      (Surrounds.refl n.typeChars).intercalate [',', ' '] (ts.map n.typeChars) (us.map n.typeChars)
    refine ⟨' ' :: '(' :: before, after ++ [')'], ?_⟩
    intro t
    have hseveral : 2 ≤ (ts ++ t :: us).length := by
      rw [List.length_append, List.length_cons]
      omega
    dsimp only at hitems ⊢
    rw [n.resultsChars_several hseveral, List.map_append, List.map_cons, hitems]
    simp

theorem surrounds_paramsChars (typeParams : List TypeParam) (before : List Binding)
    (name : Option String) (after results : List Binding) (variadic : Bool) :
    Surrounds
      (fun t => [',', ' '].intercalate
        ((Naming.shownParams variadic (before ++ ⟨name, t⟩ :: after)).map n.paramChars))
      ((SignatureFrame.param typeParams before name after results variadic).view.chars n) := by
  cases after with
  | nil =>
    have hlast : Surrounds
        (fun t => n.paramChars (variadic, if variadic then TypeExpr.spread t else t))
        ((SignatureFrame.param typeParams before name [] results variadic).view.chars n) := by
      cases variadic with
      | false => exact .refl _
      | true => exact ⟨['.', '.', '.'], [], fun t => by simp [Naming.paramChars]; rfl⟩
    obtain ⟨pre, post, hitems⟩ := hlast.intercalate [',', ' ']
      (before.map fun b => n.paramChars (false, b.type)) []
    refine ⟨pre, post, ?_⟩
    intro t
    dsimp only at hitems ⊢
    rw [Naming.shownParams_concat, List.map_append, List.map_map]
    exact hitems t
  | cons next rest =>
    obtain ⟨pre, post, hitems⟩ := (Surrounds.refl n.typeChars).intercalate [',', ' ']
      (before.map fun b => n.paramChars (false, b.type))
      ((Naming.shownParams variadic (next :: rest)).map n.paramChars)
    refine ⟨pre, post, ?_⟩
    intro t
    dsimp only at hitems ⊢
    rw [shownParams_append_cons, List.map_append, List.map_map, List.map_cons]
    exact hitems t

/-- A place in a signature surrounds what its view shows. -/
theorem SignatureFrame.surrounds (frame : SignatureFrame) :
    Surrounds (fun t => n.signatureChars (frame.fill t)) (frame.view.chars n) := by
  cases frame with
  | typeParam before name after params results variadic =>
    have hitem : Surrounds (fun t => n.typeParamChars ⟨name, t⟩) n.typeChars :=
      ⟨name.toList ++ [' '], [], fun t => by simp [Naming.typeParamChars]⟩
    obtain ⟨pre, post, hitems⟩ :=
      hitem.bracketed (before.map n.typeParamChars) (after.map n.typeParamChars)
    dsimp only at hitems
    refine ⟨pre, post ++ '(' ::
      ([',', ' '].intercalate ((Naming.shownParams variadic params).map n.paramChars) ++
        ')' :: n.resultsChars (results.map Binding.type)), ?_⟩
    intro t
    show n.signatureChars ⟨before ++ ⟨name, t⟩ :: after, params, results, variadic⟩ = _
    rw [Naming.signatureChars_eq, List.map_append, List.map_cons, hitems]
    simp [SignatureFrame.view, View.chars]
  | param typeParams before name after results variadic =>
    obtain ⟨pre, post, hitems⟩ :=
      surrounds_paramsChars n typeParams before name after results variadic
    dsimp only at hitems
    refine ⟨bracketed (typeParams.map n.typeParamChars) ++ '(' :: pre,
      post ++ ')' :: n.resultsChars (results.map Binding.type), ?_⟩
    intro t
    show n.signatureChars ⟨typeParams, before ++ ⟨name, t⟩ :: after, results, variadic⟩ = _
    rw [Naming.signatureChars_eq, hitems]
    simp
  | result typeParams params before name after variadic =>
    obtain ⟨pre, post, hresults⟩ :=
      surrounds_resultsChars n (before.map Binding.type) (after.map Binding.type)
    dsimp only at hresults
    refine ⟨bracketed (typeParams.map n.typeParamChars) ++
      '(' :: ([',', ' '].intercalate ((Naming.shownParams variadic params).map n.paramChars) ++
        ')' :: pre), post, ?_⟩
    intro t
    show n.signatureChars ⟨typeParams, params, before ++ ⟨name, t⟩ :: after, variadic⟩ = _
    rw [Naming.signatureChars_eq, List.map_append, List.map_cons, hresults]
    simp [SignatureFrame.view, View.chars]

/-! ## Types and symbols -/

/-- A place in a type surrounds what its view shows. -/
theorem TypeFrame.surrounds (frame : TypeFrame) :
    Surrounds (fun t => n.typeChars (frame.fill t)) (frame.view.chars n) := by
  cases frame with
  | pointer => exact ⟨['*'], [], fun t => by simp [fill, view, View.chars, n.typeChars_pointer]⟩
  | slice => exact ⟨['[', ']'], [], fun t => by simp [fill, view, View.chars, n.typeChars_slice]⟩
  | array len =>
    exact ⟨'[' :: (Nat.toDigits 10 len ++ [']']), [], fun t => by
      simp [fill, view, View.chars, n.typeChars_array]⟩
  | mapKey value =>
    exact ⟨['m', 'a', 'p', '['], ']' :: n.typeChars value, fun t => by
      simp [fill, view, View.chars, n.typeChars_map]⟩
  | mapValue key =>
    exact ⟨'m' :: 'a' :: 'p' :: '[' :: (n.typeChars key ++ [']']), [], fun t => by
      simp [fill, view, View.chars, n.typeChars_map]⟩
  | chan dir =>
    exact ⟨dir.marker.toList, [], fun t => by simp [fill, view, View.chars, n.typeChars_chan]⟩
  | func signature =>
    refine Surrounds.trans ?_ (signature.surrounds n)
    exact ⟨['f', 'u', 'n', 'c'], [], fun t => by simp [fill, n.typeChars_func]⟩
  | field before name after =>
    have hitem : Surrounds (fun t => n.fieldChars ⟨name, t⟩) n.typeChars := by
      cases name with
      | none => exact .refl _
      | some name => exact ⟨name.toList ++ [' '], [], fun t => by simp [Naming.fieldChars]⟩
    obtain ⟨pre, post, hitems⟩ :=
      hitem.intercalate [';', ' '] (before.map n.fieldChars) (after.map n.fieldChars)
    dsimp only at hitems
    refine ⟨"struct\x7b".toList ++ pre, post ++ ['\x7d'], ?_⟩
    intro t
    simp [fill, view, View.chars, n.typeChars_struct, hitems]
  | method before name signature after =>
    have hitem : Surrounds (fun t => n.methodChars ⟨name, signature.fill t⟩)
        (signature.view.chars n) := by
      refine Surrounds.trans ?_ (signature.surrounds n)
      exact ⟨name.toList, [], fun t => by simp [Naming.methodChars]⟩
    obtain ⟨pre, post, hitems⟩ :=
      hitem.intercalate [';', ' '] (before.map n.methodChars) (after.map n.methodChars)
    dsimp only at hitems
    refine ⟨"interface\x7b".toList ++ pre, post ++ ['\x7d'], ?_⟩
    intro t
    simp [fill, view, n.typeChars_interface, hitems]

/-- Symbols that differ in one place have the same canonical signature exactly if the place shows
the same. -/
theorem SymbolFrame.canonical?_eq_iff (name : String) (module : ModulePath) (frame : SymbolFrame)
    (t t' : TypeExpr) :
    n.canonical? ⟨name, module, frame.fill t⟩ = n.canonical? ⟨name, module, frame.fill t'⟩ ↔
      frame.view.chars n t = frame.view.chars n t' := by
  rw [Naming.canonical?_eq_iff]
  cases frame with
  | function signature =>
    have h : Surrounds (fun t => qualifiedChars (n.origins.origin module) name ++
        n.signatureChars (signature.fill t)) (signature.view.chars n) := by
      refine Surrounds.trans ?_ (signature.surrounds n)
      exact ⟨qualifiedChars (n.origins.origin module) name, [], fun t => by simp⟩
    exact Option.some_inj.trans (h.eq_iff t t')
  | receiver self signature =>
    have h : Surrounds (fun t => '(' :: (n.typeChars t ++
        ')' :: '.' :: n.methodChars ⟨name, signature⟩)) n.typeChars :=
      ⟨['('], ')' :: '.' :: n.methodChars ⟨name, signature⟩, fun t => rfl⟩
    exact Option.some_inj.trans (h.eq_iff t t')
  | method self signature =>
    have h : Surrounds (fun t => '(' :: (n.typeChars self.type ++
        ')' :: '.' :: n.methodChars ⟨name, signature.fill t⟩)) (signature.view.chars n) := by
      refine Surrounds.trans ?_ (signature.surrounds n)
      exact ⟨'(' :: (n.typeChars self.type ++ ')' :: '.' :: name.toList), [],
        fun t => by simp [Naming.methodChars]⟩
    exact Option.some_inj.trans (h.eq_iff t t')

end CallPolicy
