import CallPolicy.Proofs.Naming

/-!
# The characters of a type

The text of a type, a signature or a symbol as a list of characters, constructor by constructor.
Texts are put together by writing one after the other, so what is said of their characters is said
with the functions on lists.
-/

namespace CallPolicy

/-! ## Lists in square brackets -/

/-- The items between square brackets, or nothing if there are none. -/
def bracketed (texts : List (List Char)) : List Char :=
  if texts = [] then [] else '[' :: ([',', ' '].intercalate texts ++ [']'])

theorem toList_typeParamsText (texts : List String) :
    (Signature.typeParamsText texts).toList = bracketed (texts.map String.toList) := by
  cases texts with
  | nil => rfl
  | cons text rest => simp [Signature.typeParamsText, bracketed, String.toList_intercalate]

/-- What follows a bracketed list begins where the list does, if that is empty. -/
theorem head?_bracketed_append {texts : List (List Char)} {r : List Char} {c : Char}
    (h : (bracketed texts ++ r).head? = some c) : c = '[' ∨ r.head? = some c := by
  unfold bracketed at h
  split at h
  · exact .inr h
  · have hc : '[' = c := by simpa using h
    exact .inl hc.symm

/-! ## Qualified names -/

/-- The characters of a name after its origin. -/
def qualifiedChars (origin name : String) : List Char :=
  if origin.toList = [] then name.toList else origin.toList ++ '.' :: name.toList

theorem Naming.toList_qualified (n : Naming) (module : ModulePath) (name : String) :
    (n.qualified module name).toList = qualifiedChars (n.origins.origin module) name := by
  unfold Naming.qualified qualifiedChars
  by_cases h : n.origins.origin module = ""
  · simp [h]
  · simp [h]

/-! ## The characters of a type -/

namespace Naming

/-- The characters of a type. -/
def typeChars (n : Naming) (t : TypeExpr) : List Char :=
  (n.typeText t).toList

/-- The characters of a signature. -/
def signatureChars (n : Naming) (s : Signature) : List Char :=
  (n.signatureText s).toList

/-- The characters of a field. -/
def fieldChars (n : Naming) (b : Binding) : List Char :=
  match b.name with
  | none => n.typeChars b.type
  | some name => name.toList ++ ' ' :: n.typeChars b.type

/-- The characters of a method. -/
def methodChars (n : Naming) (m : Method) : List Char :=
  m.name.toList ++ n.signatureChars m.signature

variable (n : Naming)

theorem typeChars_pointer (elem : TypeExpr) :
    n.typeChars (.pointer elem) = '*' :: n.typeChars elem := by
  simp [typeChars, typeText, TypeExpr.render]

theorem typeChars_slice (elem : TypeExpr) :
    n.typeChars (.slice elem) = '[' :: ']' :: n.typeChars elem := by
  simp [typeChars, typeText, TypeExpr.render]

theorem typeChars_array (len : Nat) (elem : TypeExpr) :
    n.typeChars (.array len elem) = '[' :: (Nat.toDigits 10 len ++ ']' :: n.typeChars elem) := by
  simp [typeChars, typeText, TypeExpr.render]

theorem typeChars_map (key value : TypeExpr) :
    n.typeChars (.map key value) =
      'm' :: 'a' :: 'p' :: '[' :: (n.typeChars key ++ ']' :: n.typeChars value) := by
  simp [typeChars, typeText, TypeExpr.render]

theorem typeChars_chan (dir : ChanDir) (elem : TypeExpr) :
    n.typeChars (.chan dir elem) =
      dir.marker.toList ++
        if dir.encloses elem then '(' :: (n.typeChars elem ++ [')']) else n.typeChars elem := by
  rw [typeChars, typeText, TypeExpr.render]
  split <;> simp [typeChars, typeText]

theorem typeChars_func (s : Signature) :
    n.typeChars (.func s) = 'f' :: 'u' :: 'n' :: 'c' :: n.signatureChars s := by
  simp [typeChars, typeText, TypeExpr.render, signatureChars, signatureText]

theorem toList_fieldText (b : Binding) :
    (Binding.fieldText b.name (b.type.render n.typeRef)).toList = n.fieldChars b := by
  unfold Binding.fieldText fieldChars
  cases b.name with
  | none => rfl
  | some name => simp [typeChars, typeText]

theorem typeChars_struct (fields : List Binding) :
    n.typeChars (.struct fields) =
      's' :: 't' :: 'r' :: 'u' :: 'c' :: 't' :: '\x7b' ::
        ([';', ' '].intercalate (fields.map n.fieldChars) ++ ['\x7d']) := by
  simp [typeChars, typeText, TypeExpr.render, Binding.fieldTexts_eq, String.toList_intercalate,
    Function.comp_def, toList_fieldText]

theorem typeChars_interface (methods : List Method) :
    n.typeChars (.interface methods) =
      'i' :: 'n' :: 't' :: 'e' :: 'r' :: 'f' :: 'a' :: 'c' :: 'e' :: '\x7b' ::
        ([';', ' '].intercalate (methods.map n.methodChars) ++ ['\x7d']) := by
  have hmethods : (Method.texts n.typeRef methods).map String.toList =
      methods.map n.methodChars := by
    rw [Method.texts_eq, List.map_map]
    refine List.map_congr_left ?_
    intro m _
    simp [methodChars, signatureChars, signatureText]
  simp [typeChars, typeText, TypeExpr.render, String.toList_intercalate, hmethods]

/-! ## Signatures -/

/-- The characters of a type parameter. -/
def typeParamChars (p : TypeParam) : List Char :=
  p.name.toList ++ ' ' :: n.typeChars p.constraint

/-- The types shown for parameters, each marked if it takes the rest of the arguments. -/
def shownParams (variadic : Bool) : List Binding → List (Bool × TypeExpr)
  | [] => []
  | [last] => [(variadic, if variadic then last.type.spread else last.type)]
  | b :: next :: rest => (false, b.type) :: shownParams variadic (next :: rest)

/-- The characters of a parameter. -/
def paramChars (shown : Bool × TypeExpr) : List Char :=
  if shown.1 then '.' :: '.' :: '.' :: n.typeChars shown.2 else n.typeChars shown.2

/-- The characters of the results. -/
def resultsChars : List TypeExpr → List Char
  | [] => []
  | [single] => ' ' :: n.typeChars single
  | many => ' ' :: '(' :: ([',', ' '].intercalate (many.map n.typeChars) ++ [')'])

theorem resultsChars_several {ts : List TypeExpr} (h : 2 ≤ ts.length) :
    n.resultsChars ts = ' ' :: '(' :: ([',', ' '].intercalate (ts.map n.typeChars) ++ [')']) := by
  match ts with
  | [] => cases h
  | [single] => exact absurd h (by simp)
  | _ :: _ :: _ => rfl

theorem shownParams_concat (variadic : Bool) (bs : List Binding) (last : Binding) :
    shownParams variadic (bs ++ [last]) =
      (bs.map fun b => (false, b.type)) ++
        [(variadic, if variadic then last.type.spread else last.type)] := by
  induction bs with
  | nil => rfl
  | cons b rest ih =>
    cases hrest : rest ++ [last] with
    | nil => simp at hrest
    | cons next others =>
      rw [hrest] at ih
      rw [List.cons_append, hrest, shownParams, ih]
      rfl

/-- What holds of all parameters, as they are and spread, holds of all that is shown for them. -/
theorem forall_mem_shownParams {variadic : Bool} {bs : List Binding} {P : TypeExpr → Prop}
    (h : ∀ b ∈ bs, P b.type ∧ P b.type.spread) : ∀ x ∈ shownParams variadic bs, P x.2 := by
  intro x hx
  rcases List.eq_nil_or_concat bs with rfl | ⟨init, last, rfl⟩
  · cases hx
  · rw [List.concat_eq_append] at h hx
    rw [shownParams_concat, List.mem_append, List.mem_map, List.mem_singleton] at hx
    rcases hx with ⟨b, hb, rfl⟩ | rfl
    · exact (h b (List.mem_append_left _ hb)).1
    · obtain ⟨htype, hspread⟩ := h last (List.mem_append_right _ List.mem_cons_self)
      cases variadic with
      | false => exact htype
      | true => exact hspread

theorem toList_paramTexts (variadic : Bool) (params : List Binding) :
    (Binding.paramTexts n.typeRef variadic params).map String.toList =
      (shownParams variadic params).map n.paramChars := by
  rcases List.eq_nil_or_concat params with rfl | ⟨init, last, rfl⟩
  · rfl
  · rw [List.concat_eq_append, Binding.paramTexts_concat, shownParams_concat, List.map_append,
      List.map_append, List.map_map, List.map_map]
    cases variadic with
    | false => rfl
    | true => simp [Signature.lastText, paramChars, typeChars, typeText]

theorem toList_resultsText (results : List Binding) :
    (Signature.resultsText (Binding.typeTexts n.typeRef results)).toList =
      n.resultsChars (results.map Binding.type) := by
  rw [Binding.typeTexts_eq]
  match results with
  | [] => rfl
  | [single] => simp [Signature.resultsText, resultsChars, typeChars, typeText]
  | first :: second :: rest =>
    simp [Signature.resultsText, resultsChars, String.toList_intercalate, Function.comp_def,
      typeChars, typeText]

theorem signatureChars_eq (s : Signature) :
    n.signatureChars s =
      bracketed (s.typeParams.map n.typeParamChars) ++
        '(' :: ([',', ' '].intercalate ((shownParams s.variadic s.params).map n.paramChars) ++
          ')' :: n.resultsChars (s.results.map Binding.type)) := by
  obtain ⟨typeParams, params, results, variadic⟩ := s
  have htypeParams : (TypeParam.texts n.typeRef typeParams).map String.toList =
      typeParams.map n.typeParamChars := by
    rw [TypeParam.texts_eq, List.map_map]
    refine List.map_congr_left ?_
    intro p _
    simp [typeParamChars, typeChars, typeText]
  simp [signatureChars, signatureText, Signature.render, toList_typeParamsText, htypeParams,
    String.toList_intercalate, toList_paramTexts, toList_resultsText]

/-- A signature begins with a bracket. -/
theorem exists_signatureChars_eq_cons (s : Signature) :
    ∃ c rest, n.signatureChars s = c :: rest ∧ (c = '[' ∨ c = '(') := by
  rw [signatureChars_eq]
  unfold bracketed
  split
  · exact ⟨_, _, rfl, .inr rfl⟩
  · exact ⟨_, _, rfl, .inl rfl⟩

/-! ## Symbols -/

/-- The characters of a canonical signature after its first word. -/
def symbolChars? (n : Naming) (s : Symbol) : Option (List Char) :=
  match s.kind with
  | .function signature =>
    some (qualifiedChars (n.origins.origin s.module) s.name ++ n.signatureChars signature)
  | .method receiver signature =>
    some ('(' :: (n.typeChars receiver.type ++ ')' :: '.' :: n.methodChars ⟨s.name, signature⟩))
  | .variable | .constant | .typeName => none

theorem canonical?_eq (n : Naming) (s : Symbol) :
    n.canonical? s = (n.symbolChars? s).map fun chars => "func " ++ String.ofList chars := by
  obtain ⟨name, module, kind⟩ := s
  cases kind with
  | function signature =>
    refine congrArg some (String.toList_inj.1 ?_)
    simp [toList_qualified, signatureChars]
  | method receiver signature =>
    refine congrArg some (String.toList_inj.1 ?_)
    simp [typeChars, methodChars, signatureChars]
  | «variable» => rfl
  | constant => rfl
  | typeName => rfl

/-- Canonical signatures are compared by their characters after the first word. -/
theorem canonical?_eq_iff (n : Naming) (s s' : Symbol) :
    n.canonical? s = n.canonical? s' ↔ n.symbolChars? s = n.symbolChars? s' := by
  rw [canonical?_eq, canonical?_eq]
  refine Option.map_inj_right ?_
  intro chars chars' h
  rw [String.append_right_inj] at h
  exact String.ofList_injective h

end Naming

end CallPolicy
