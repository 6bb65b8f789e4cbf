import CallPolicy.Proofs.Lead

/-!
# Types are told from what follows them

A type *is told* from what follows it if a text that begins with the type and goes on with a stop
tells both the shape of the type and what goes on.  Each constructor keeps that from its parts, so
it holds of every type once it holds of the declared types in it, and of a declared type once it
holds of the arguments of its entry.

## Main statements

* `Naming.separates` — every type is told from what follows.
* `Naming.FitsSignature.separates` — so is every signature.
-/

namespace CallPolicy

open Text

namespace Naming

/-! ## Being told from what follows -/

/-- A text that begins with the type tells its shape and what follows it. -/
def Separates (n : Naming) (t : TypeExpr) : Prop :=
  ∀ t' r r', n.Fits t' → Stops r → Stops r' → n.typeChars t ++ r = n.typeChars t' ++ r' →
    n.shapeOf t = n.shapeOf t' ∧ r = r'

/-- A text that begins with the signature tells its shape and what follows it. -/
def SeparatesSignature (n : Naming) (s : Signature) : Prop :=
  ∀ s' r r', n.FitsSignature s' → Stops r → Stops r' →
    n.signatureChars s ++ r = n.signatureChars s' ++ r' →
    n.signatureShape s = n.signatureShape s' ∧ r = r'

variable {n : Naming}

/-! ## Names -/

/-- A list in square brackets is told from what follows, if that is no such list. -/
theorem bracketed_inj {α β : Type} {text : α → List Char} (key : α → β) {xs ys : List α}
    {r r' : List Char} (hxs : ∀ x ∈ xs, Opens (text x)) (hys : ∀ y ∈ ys, Opens (text y))
    (hitem : ∀ x ∈ xs, ∀ y ∈ ys, ∀ r r', Stops r → Stops r' →
      text x ++ r = text y ++ r' → key x = key y ∧ r = r')
    (hr : r.head? ≠ some '[') (hr' : r'.head? ≠ some '[')
    (h : bracketed (xs.map text) ++ r = bracketed (ys.map text) ++ r') :
    xs.map key = ys.map key ∧ r = r' := by
  unfold bracketed at h
  by_cases hx : xs.map text = []
  · rw [if_pos hx, List.nil_append] at h
    by_cases hy : ys.map text = []
    · rw [if_pos hy, List.nil_append] at h
      rw [List.map_eq_nil_iff.1 hx, List.map_eq_nil_iff.1 hy]
      exact ⟨rfl, h⟩
    · rw [if_neg hy] at h
      rw [h] at hr
      exact absurd rfl hr
  · rw [if_neg hx] at h
    by_cases hy : ys.map text = []
    · rw [if_pos hy, List.nil_append] at h
      rw [← h] at hr'
      exact absurd rfl hr'
    · rw [if_neg hy, List.cons_append, List.cons_append, List.append_assoc,
        List.append_assoc] at h
      injection h with _ h
      exact intercalate_inj key rfl rfl (by decide) hxs hys hitem h

theorem head?_ne_of_stops {r : List Char} (hr : Stops r) {c : Char} (hc : isStop c = false) :
    r.head? ≠ some c := by
  intro h
  rw [hr c h] at hc
  cases hc

/-- A type that is written as a name is told, if its arguments are. -/
theorem WrittenAs.inj (hn : n.WellNamed) {t t' : TypeExpr} {origin name origin' name' : String}
    {args args' : List TypeExpr} (h : n.WrittenAs t origin name args)
    (h' : n.WrittenAs t' origin' name' args') (hargs : ∀ arg ∈ args, n.Separates arg)
    {r r' : List Char} (hr : Stops r) (hr' : Stops r')
    (htext : n.typeChars t ++ r = n.typeChars t' ++ r') :
    n.shapeOf t = n.shapeOf t' ∧ r = r' := by
  rw [h.chars, h'.chars, List.append_assoc, List.append_assoc] at htext
  obtain ⟨hqualified, hrest⟩ := run_inj
    (fun c hc => isOriginChar_of_mem_qualifiedChars h.isOrigin h.isIdentifier hc)
    (fun c hc => isOriginChar_of_mem_qualifiedChars h'.isOrigin h'.isIdentifier hc)
    (fun c hc => not_isOriginChar_head?_bracketed hr hc)
    (fun c hc => not_isOriginChar_head?_bracketed hr' hc) htext
  obtain ⟨rfl, rfl⟩ := qualifiedChars_inj h.isIdentifier h'.isIdentifier hqualified
  obtain ⟨hshapes, rfl⟩ := bracketed_inj n.shapeOf
    (fun arg harg => opens_typeChars hn (h.fits arg harg))
    (fun arg harg => opens_typeChars hn (h'.fits arg harg))
    (fun arg harg arg' harg' r r' => hargs arg harg arg' r r' (h'.fits arg' harg'))
    (head?_ne_of_stops hr rfl) (head?_ne_of_stops hr' rfl) hrest
  exact ⟨by rw [h.shape, h'.shape, hshapes], rfl⟩

/-- A type of the kind of names is written as one. -/
theorem exists_writtenAs (hn : n.WellNamed) {t : TypeExpr} (ht : n.Fits t)
    (hlead : t.lead = .name) : ∃ origin name args, n.WrittenAs t origin name args := by
  cases t with
  | basic name => exact ⟨_, _, _, .basic ht⟩
  | typeParam name => exact ⟨_, _, _, .typeParam ht⟩
  | named id =>
    obtain ⟨d, hd⟩ := ht.exists_entry
    exact ⟨_, _, _, .named hn hd⟩
  | _ => cases hlead

theorem WrittenAs.separates (hn : n.WellNamed) {t : TypeExpr} {origin name : String}
    {args : List TypeExpr} (h : n.WrittenAs t origin name args)
    (hargs : ∀ arg ∈ args, n.Separates arg) : n.Separates t := by
  intro t' r r' ht' hr hr' htext
  have hlead : t'.lead = .name := by
    rw [← read_typeChars hn ht' hr', ← htext]
    exact h.read hr
  obtain ⟨origin', name', args', h'⟩ := exists_writtenAs hn ht' hlead
  exact h.inj hn h' hargs hr hr' htext

/-! ## Signatures -/

/-- A name with a blank after it is told from what follows the blank. -/
theorem name_inj {name name' : String} (hname : isIdentifier name = true)
    (hname' : isIdentifier name' = true) {x y : List Char}
    (h : name.toList ++ ' ' :: x = name'.toList ++ ' ' :: y) : name = name' ∧ x = y := by
  obtain ⟨hchars, hrest⟩ := run_inj (fun c hc => isNameChar_of_mem hname hc)
    (fun c hc => isNameChar_of_mem hname' hc) (head?_cons_eq_false rfl x)
    (head?_cons_eq_false rfl y) h
  injection hrest with _ hrest
  exact ⟨String.toList_inj.1 hchars, hrest⟩

theorem opens_name_append {name : String} (hname : isIdentifier name = true) (r : List Char) :
    Opens (name.toList ++ r) := by
  obtain ⟨c, rest, hchars⟩ := List.exists_cons_of_ne_nil (isIdentifier_ne_nil hname)
  have hmem : c ∈ name.toList := by
    rw [hchars]
    exact List.mem_cons_self
  have hc : isNameChar c = true := isNameChar_of_mem hname hmem
  refine ⟨c, rest ++ r, by rw [hchars]; rfl, ?_⟩
  cases hstop : isStop c with
  | false => rfl
  | true =>
    have hnot := not_isOriginChar_of_isStop hstop
    rw [isOriginChar_of_isNameChar hc] at hnot
    cases hnot

/-- What a text shows of a type parameter. -/
def typeParamShape (n : Naming) (p : TypeParam) : String × Shape :=
  (p.name, n.shapeOf p.constraint)

/-- A type parameter is told from what follows, if its constraint is. -/
theorem typeParamChars_inj {p p' : TypeParam} (hp : n.Separates p.constraint)
    (hname : isIdentifier p.name = true) (hname' : isIdentifier p'.name = true)
    (hfits' : n.Fits p'.constraint) {r r' : List Char} (hr : Stops r) (hr' : Stops r')
    (h : n.typeParamChars p ++ r = n.typeParamChars p' ++ r') :
    n.typeParamShape p = n.typeParamShape p' ∧ r = r' := by
  rw [typeParamChars, typeParamChars, List.append_assoc, List.append_assoc] at h
  obtain ⟨heq, htypes⟩ := name_inj hname hname' h
  obtain ⟨hshape, hrest⟩ := hp _ r r' hfits' hr hr' htypes
  exact ⟨Prod.ext heq hshape, hrest⟩

/-- What a text shows of a parameter. -/
def shownShape (n : Naming) (shown : Bool × TypeExpr) : Bool × Shape :=
  (shown.1, n.shapeOf shown.2)

/-- A parameter is told from what follows, with the mark of one that takes the rest. -/
theorem paramChars_inj (hn : n.WellNamed) {x y : Bool × TypeExpr} (hx : n.Separates x.2)
    (hfits : n.Fits x.2) (hfits' : n.Fits y.2) {r r' : List Char} (hr : Stops r) (hr' : Stops r')
    (h : n.paramChars x ++ r = n.paramChars y ++ r') :
    n.shownShape x = n.shownShape y ∧ r = r' := by
  obtain ⟨flag, t⟩ := x
  obtain ⟨flag', t'⟩ := y
  cases flag with
  | false =>
    cases flag' with
    | false =>
      obtain ⟨hshape, hrest⟩ := hx t' r r' hfits' hr hr' h
      exact ⟨Prod.ext rfl hshape, hrest⟩
    | true => exact absurd h (typeChars_append_ne_cons hn hfits rfl _ _)
  | true =>
    cases flag' with
    | false => exact absurd h.symm (typeChars_append_ne_cons hn hfits' rfl _ _)
    | true =>
      have htypes : n.typeChars t ++ r = n.typeChars t' ++ r' := by
        simpa [paramChars] using h
      obtain ⟨hshape, hrest⟩ := hx t' r r' hfits' hr hr' htypes
      exact ⟨Prod.ext rfl hshape, hrest⟩

theorem opens_paramChars (hn : n.WellNamed) {x : Bool × TypeExpr} (hx : n.Fits x.2) :
    Opens (n.paramChars x) := by
  obtain ⟨flag, t⟩ := x
  cases flag with
  | false => exact opens_typeChars hn hx
  | true => exact ⟨_, _, rfl, rfl⟩

/-- After the parameters a blank tells that there are results. -/
theorem not_stops_resultsChars (n : Naming) (t : TypeExpr) (rest : List TypeExpr) (r : List Char) :
    ¬Stops (n.resultsChars (t :: rest) ++ r) := by
  cases rest with
  | nil => exact not_stops_cons rfl _
  | cons u rest => exact not_stops_cons rfl _

/-- The results are told from what follows. -/
theorem resultsChars_inj (hn : n.WellNamed) {ts ts' : List TypeExpr}
    (hts : ∀ t ∈ ts, n.Separates t) (hfits : ∀ t ∈ ts, n.Fits t) (hfits' : ∀ t ∈ ts', n.Fits t)
    {r r' : List Char} (hr : Stops r) (hr' : Stops r')
    (h : n.resultsChars ts ++ r = n.resultsChars ts' ++ r') :
    ts.map n.shapeOf = ts'.map n.shapeOf ∧ r = r' := by
  match ts, ts' with
  | [], [] => exact ⟨rfl, h⟩
  | [], t' :: rest' =>
    have hstops : Stops (n.resultsChars (t' :: rest') ++ r') := by
      rw [← h]
      exact hr
    exact absurd hstops (not_stops_resultsChars n t' rest' r')
  | t :: rest, [] =>
    have hstops : Stops (n.resultsChars (t :: rest) ++ r) := by
      rw [h]
      exact hr'
    exact absurd hstops (not_stops_resultsChars n t rest r)
  | [t], [t'] =>
    injection h with _ h
    obtain ⟨hshape, hrest⟩ :=
      hts t List.mem_cons_self t' r r' (hfits' t' List.mem_cons_self) hr hr' h
    exact ⟨by rw [List.map_singleton, List.map_singleton, hshape], hrest⟩
  | [t], t' :: u' :: rest' =>
    injection h with _ h
    exact absurd h (typeChars_append_ne_cons hn (hfits t List.mem_cons_self) rfl _ _)
  | t :: u :: rest, [t'] =>
    injection h with _ h
    exact absurd h.symm (typeChars_append_ne_cons hn (hfits' t' List.mem_cons_self) rfl _ _)
  | t :: u :: rest, t' :: u' :: rest' =>
    rw [resultsChars_several n (by simp), resultsChars_several n (by simp), List.cons_append,
      List.cons_append, List.cons_append, List.cons_append, List.append_assoc,
      List.append_assoc] at h
    injection h with _ h
    injection h with _ h
    exact intercalate_inj n.shapeOf rfl rfl (by decide)
      (fun t ht => opens_typeChars hn (hfits t ht))
      (fun t ht => opens_typeChars hn (hfits' t ht))
      (fun t ht t' ht' r r' => hts t ht t' r r' (hfits' t' ht')) h

/-- What is shown for the last parameters tells their shapes, because one that takes the rest is a
slice. -/
theorem shapeOf_last_eq {s s' : Signature} (hs : n.FitsSignature s) (hs' : n.FitsSignature s')
    {init init' : List Binding} {last last' : Binding} (hparams : s.params = init ++ [last])
    (hparams' : s'.params = init' ++ [last']) (hvariadic : s.variadic = s'.variadic)
    (h : n.shapeOf (if s.variadic then last.type.spread else last.type) =
      n.shapeOf (if s'.variadic then last'.type.spread else last'.type)) :
    n.shapeOf last.type = n.shapeOf last'.type := by
  rw [← hvariadic] at h
  cases hv : s.variadic with
  | false =>
    rw [hv] at h
    exact h
  | true =>
    obtain ⟨elem, hlast⟩ := hs.exists_slice hv hparams
    obtain ⟨elem', hlast'⟩ := hs'.exists_slice (hvariadic ▸ hv) hparams'
    rw [hv, hlast, hlast'] at h
    rw [hlast, hlast']
    show Shape.slice (n.shapeOf elem) = .slice (n.shapeOf elem')
    exact congrArg Shape.slice h

/-- What is shown for parameters tells their shapes and whether the last one takes the rest. -/
theorem params_eq_of_shown {s s' : Signature} (hs : n.FitsSignature s) (hs' : n.FitsSignature s')
    (h : (shownParams s.variadic s.params).map n.shownShape =
      (shownParams s'.variadic s'.params).map n.shownShape) :
    (s.params.map fun b => n.shapeOf b.type) = (s'.params.map fun b => n.shapeOf b.type) ∧
      (s.variadic && !s.params.isEmpty) = (s'.variadic && !s'.params.isEmpty) := by
  rcases List.eq_nil_or_concat s.params with hnil | ⟨init, last, hlast⟩
  · rcases List.eq_nil_or_concat s'.params with hnil' | ⟨init', last', hlast'⟩
    · rw [hnil, hnil', List.isEmpty_nil, Bool.not_true, Bool.and_false, Bool.and_false]
      exact ⟨rfl, rfl⟩
    · rw [List.concat_eq_append] at hlast'
      rw [hnil, hlast', shownParams_concat] at h
      simp [shownParams] at h
  · rw [List.concat_eq_append] at hlast
    rcases List.eq_nil_or_concat s'.params with hnil' | ⟨init', last', hlast'⟩
    · rw [hnil', hlast, shownParams_concat] at h
      simp [shownParams] at h
    · rw [List.concat_eq_append] at hlast'
      rw [hlast, hlast', shownParams_concat, shownParams_concat, List.map_append,
        List.map_append, List.map_map, List.map_map] at h
      obtain ⟨hinit, hend⟩ := List.append_inj' h rfl
      injection hend with hend
      have hvariadic : s.variadic = s'.variadic := congrArg Prod.fst hend
      have hshape := shapeOf_last_eq hs hs' hlast hlast' hvariadic (congrArg Prod.snd hend)
      have hshapes : (init.map fun b => n.shapeOf b.type) =
          init'.map fun b => n.shapeOf b.type := by
        have hsnd := congrArg (List.map Prod.snd) hinit
        rw [List.map_map, List.map_map] at hsnd
        exact hsnd
      rw [hlast, hlast', List.map_append, List.map_append, hshapes, hvariadic]
      refine ⟨by rw [List.map_singleton, List.map_singleton, hshape], ?_⟩
      have hne : ∀ (bs : List Binding) (b : Binding), (bs ++ [b]).isEmpty = false := fun bs b =>
        List.isEmpty_eq_false_iff.2 (by simp)
      rw [hne, hne]

/-- **A signature is told from what follows,** if its parts are. -/
theorem separatesSignature (hn : n.WellNamed) {s : Signature} (hs : n.FitsSignature s)
    (h : ∀ t ∈ s.parts, n.Separates t ∧ n.Separates t.spread) : n.SeparatesSignature s := by
  intro s' r r' hs' hr hr' htext
  rw [signatureChars_eq, signatureChars_eq, List.append_assoc, List.append_assoc, List.cons_append,
    List.cons_append, List.append_assoc, List.append_assoc, List.cons_append,
    List.cons_append] at htext
  have hfits : ∀ {s : Signature}, n.FitsSignature s → ∀ x ∈ shownParams s.variadic s.params,
      n.Fits x.2 := fun hs => forall_mem_shownParams fun b hb =>
    ⟨hs.part (Signature.param_mem_parts hb), (hs.part (Signature.param_mem_parts hb)).spread⟩
  have hsep : ∀ x ∈ shownParams s.variadic s.params, n.Separates x.2 :=
    forall_mem_shownParams fun b hb => h _ (Signature.param_mem_parts hb)
  -- the type parameters
  obtain ⟨htypeParams, hrest⟩ := bracketed_inj n.typeParamShape
    (fun p hp => opens_name_append (hs.typeParam_name hp) _)
    (fun p hp => opens_name_append (hs'.typeParam_name hp) _)
    (fun p hp p' hp' r r' hr hr' => typeParamChars_inj
      (h _ (Signature.constraint_mem_parts hp)).1 (hs.typeParam_name hp) (hs'.typeParam_name hp')
      (hs'.part (Signature.constraint_mem_parts hp')) hr hr')
    (by simp) (by simp) htext
  injection hrest with _ hrest
  -- the parameters
  obtain ⟨hparams, hrest⟩ := intercalate_inj n.shownShape rfl rfl (by decide)
    (fun x hx => opens_paramChars hn (hfits hs x hx))
    (fun x hx => opens_paramChars hn (hfits hs' x hx))
    (fun x hx y hy r r' hr hr' => paramChars_inj hn (hsep x hx) (hfits hs x hx)
      (hfits hs' y hy) hr hr') hrest
  obtain ⟨hshapes, hvariadic⟩ := params_eq_of_shown hs hs' hparams
  -- the results
  obtain ⟨hresults, hrest⟩ := resultsChars_inj hn
    (List.forall_mem_map.2 fun b hb => (h _ (Signature.result_mem_parts hb)).1)
    (List.forall_mem_map.2 fun b hb => hs.part (Signature.result_mem_parts hb))
    (List.forall_mem_map.2 fun b hb => hs'.part (Signature.result_mem_parts hb)) hr hr' hrest
  rw [List.map_map, List.map_map] at hresults
  refine ⟨?_, hrest⟩
  rw [signatureShape_eq, signatureShape_eq, hshapes, hvariadic]
  show SignatureShape.mk (s.typeParams.map n.typeParamShape) _
    (s.results.map (n.shapeOf ∘ Binding.type)) _ = _
  rw [htypeParams, hresults]
  rfl

/-! ## Fields and methods -/

/-- What a text shows of a field. -/
def fieldShape (n : Naming) (b : Binding) : Option String × Shape :=
  (b.name, n.shapeOf b.type)

/-- What a text shows of a method. -/
def methodShape (n : Naming) (m : Method) : String × SignatureShape :=
  (m.name, n.signatureShape m.signature)

/-- A name with a blank after it is no type: the only types that begin with a name end with it or
go on with a bracket. -/
theorem name_append_ne_typeChars (hn : n.WellNamed) {name : String}
    (hname : isIdentifier name = true) {t : TypeExpr} (ht : n.Fits t) {r : List Char}
    (hr : Stops r) (x : List Char) : name.toList ++ ' ' :: x ≠ n.typeChars t ++ r := by
  intro h
  have hchars : ∀ c ∈ name.toList, isOriginChar c = true := fun c hc =>
    isOriginChar_of_isNameChar (isNameChar_of_mem hname hc)
  have hblank : ∀ c, (' ' :: x).head? = some c → isOriginChar c = false :=
    head?_cons_eq_false rfl x
  have hlead : t.lead = .name := by
    rw [← read_typeChars hn ht hr, ← h, Lead.read_append hchars hblank]
    have horigin : isOrigin "" = true := rfl
    exact Lead.ofWord_qualifiedChars horigin hname _
  obtain ⟨origin, name', args, hwritten⟩ := exists_writtenAs hn ht hlead
  rw [hwritten.chars, List.append_assoc] at h
  obtain ⟨-, hrest⟩ := run_inj hchars
    (fun c hc => isOriginChar_of_mem_qualifiedChars hwritten.isOrigin hwritten.isIdentifier hc)
    hblank (fun c hc => not_isOriginChar_head?_bracketed hr hc) h
  have hhead : (bracketed (args.map n.typeChars) ++ r).head? = some ' ' := by
    rw [← hrest]
    rfl
  rcases head?_bracketed_append hhead with hc | hc
  · cases hc
  · exact head?_ne_of_stops hr rfl hc

/-- A field is told from what follows, if its type is. -/
theorem fieldChars_inj (hn : n.WellNamed) {b b' : Binding} (hb : n.Separates b.type)
    (hname : b.name.all isIdentifier = true) (hname' : b'.name.all isIdentifier = true)
    (hfits : n.Fits b.type) (hfits' : n.Fits b'.type) {r r' : List Char} (hr : Stops r)
    (hr' : Stops r') (h : n.fieldChars b ++ r = n.fieldChars b' ++ r') :
    n.fieldShape b = n.fieldShape b' ∧ r = r' := by
  obtain ⟨name, t⟩ := b
  obtain ⟨name', t'⟩ := b'
  cases name with
  | none =>
    cases name' with
    | none =>
      obtain ⟨hshape, hrest⟩ := hb t' r r' hfits' hr hr' h
      exact ⟨Prod.ext rfl hshape, hrest⟩
    | some name' =>
      have htext : name'.toList ++ ' ' :: (n.typeChars t' ++ r') = n.typeChars t ++ r := by
        simpa [fieldChars] using h.symm
      exact absurd htext (name_append_ne_typeChars hn hname' hfits hr _)
  | some name =>
    cases name' with
    | none =>
      have htext : name.toList ++ ' ' :: (n.typeChars t ++ r) = n.typeChars t' ++ r' := by
        simpa [fieldChars] using h
      exact absurd htext (name_append_ne_typeChars hn hname hfits' hr' _)
    | some name' =>
      have htext : name.toList ++ ' ' :: (n.typeChars t ++ r) =
          name'.toList ++ ' ' :: (n.typeChars t' ++ r') := by
        simpa [fieldChars] using h
      obtain ⟨heq, htypes⟩ := name_inj hname hname' htext
      obtain ⟨hshape, hrest⟩ := hb t' r r' hfits' hr hr' htypes
      exact ⟨Prod.ext (congrArg some heq) hshape, hrest⟩

theorem opens_fieldChars (hn : n.WellNamed) {b : Binding} (hname : b.name.all isIdentifier = true)
    (hfits : n.Fits b.type) : Opens (n.fieldChars b) := by
  obtain ⟨name, t⟩ := b
  cases name with
  | none => exact opens_typeChars hn hfits
  | some name => exact opens_name_append hname _

/-- A signature begins with no character of an origin. -/
theorem not_isOriginChar_head?_signatureChars {s : Signature} {r : List Char} {c : Char}
    (h : (n.signatureChars s ++ r).head? = some c) : isOriginChar c = false := by
  obtain ⟨d, rest, hchars, hd⟩ := n.exists_signatureChars_eq_cons s
  rw [hchars] at h
  have hcd : d = c := by simpa using h
  rw [← hcd]
  rcases hd with rfl | rfl <;> rfl

/-- A method is told from what follows, if its signature is. -/
theorem methodChars_inj {m m' : Method} (hm : n.SeparatesSignature m.signature)
    (hname : isIdentifier m.name = true) (hname' : isIdentifier m'.name = true)
    (hfits' : n.FitsSignature m'.signature) {r r' : List Char} (hr : Stops r) (hr' : Stops r')
    (h : n.methodChars m ++ r = n.methodChars m' ++ r') :
    n.methodShape m = n.methodShape m' ∧ r = r' := by
  rw [methodChars, methodChars, List.append_assoc, List.append_assoc] at h
  obtain ⟨hchars, hsignatures⟩ := run_inj
    (fun c hc => isOriginChar_of_isNameChar (isNameChar_of_mem hname hc))
    (fun c hc => isOriginChar_of_isNameChar (isNameChar_of_mem hname' hc))
    (fun c hc => not_isOriginChar_head?_signatureChars hc)
    (fun c hc => not_isOriginChar_head?_signatureChars hc) h
  obtain ⟨hshape, hrest⟩ := hm _ r r' hfits' hr hr' hsignatures
  exact ⟨Prod.ext (String.toList_inj.1 hchars) hshape, hrest⟩

/-! ## Types -/

/-- A length with the bracket that closes it is told from what follows the bracket. -/
theorem digits_inj {len len' : Nat} {x y : List Char}
    (h : Nat.toDigits 10 len ++ ']' :: x = Nat.toDigits 10 len' ++ ']' :: y) :
    len = len' ∧ x = y := by
  have hdigits : ∀ (k : Nat) (c : Char), c ∈ Nat.toDigits 10 k → c.isDigit = true := fun k c hc =>
    Nat.isDigit_of_mem_toDigits (by decide) (by decide) hc
  obtain ⟨hlen, hrest⟩ := run_inj (hdigits len) (hdigits len') (head?_cons_eq_false rfl x)
    (head?_cons_eq_false rfl y) h
  injection hrest with _ hrest
  refine ⟨?_, hrest⟩
  rw [← Nat.ofDigitChars_ten_toDigits (n := len), hlen, Nat.ofDigitChars_ten_toDigits]

/-- It is enough to compare a type with those of its kind. -/
theorem separates_of_lead (hn : n.WellNamed) {t : TypeExpr} (ht : n.Fits t)
    (h : ∀ t' r r', n.Fits t' → t.lead = t'.lead → Stops r → Stops r' →
      n.typeChars t ++ r = n.typeChars t' ++ r' → n.shapeOf t = n.shapeOf t' ∧ r = r') :
    n.Separates t := by
  intro t' r r' ht' hr hr' htext
  have hlead : t.lead = t'.lead := by
    rw [← read_typeChars hn ht hr, htext, read_typeChars hn ht' hr']
  exact h t' r r' ht' hlead hr hr' htext

theorem separates_pointer (hn : n.WellNamed) {elem : TypeExpr} (ht : n.Fits (.pointer elem))
    (helem : n.Separates elem) : n.Separates (.pointer elem) := by
  refine separates_of_lead hn ht ?_
  intro t' r r' ht' hlead hr hr' h
  cases t' with
  | pointer elem' =>
    rw [typeChars_pointer, typeChars_pointer] at h
    injection h with _ h
    obtain ⟨hshape, hrest⟩ := helem elem' r r' ⟨ht'.wellNamed, ht'.inTable⟩ hr hr' h
    exact ⟨congrArg Shape.pointer hshape, hrest⟩
  | _ => cases hlead

theorem separates_slice (hn : n.WellNamed) {elem : TypeExpr} (ht : n.Fits (.slice elem))
    (helem : n.Separates elem) : n.Separates (.slice elem) := by
  refine separates_of_lead hn ht ?_
  intro t' r r' ht' hlead hr hr' h
  cases t' with
  | slice elem' =>
    rw [typeChars_slice, typeChars_slice] at h
    injection h with _ h
    injection h with _ h
    obtain ⟨hshape, hrest⟩ := helem elem' r r' ⟨ht'.wellNamed, ht'.inTable⟩ hr hr' h
    exact ⟨congrArg Shape.slice hshape, hrest⟩
  | _ => cases hlead

theorem separates_array (hn : n.WellNamed) {len : Nat} {elem : TypeExpr}
    (ht : n.Fits (.array len elem)) (helem : n.Separates elem) : n.Separates (.array len elem) := by
  refine separates_of_lead hn ht ?_
  intro t' r r' ht' hlead hr hr' h
  cases t' with
  | array len' elem' =>
    rw [typeChars_array, typeChars_array, List.cons_append, List.cons_append, List.append_assoc,
      List.append_assoc] at h
    injection h with _ h
    obtain ⟨hlen, h⟩ := digits_inj h
    obtain ⟨hshape, hrest⟩ := helem elem' r r' ⟨ht'.wellNamed, ht'.inTable⟩ hr hr' h
    rw [hlen]
    exact ⟨congrArg (Shape.array len') hshape, hrest⟩
  | _ => cases hlead

theorem separates_map (hn : n.WellNamed) {key value : TypeExpr} (ht : n.Fits (.map key value))
    (hkey : n.Separates key) (hvalue : n.Separates value) : n.Separates (.map key value) := by
  refine separates_of_lead hn ht ?_
  intro t' r r' ht' hlead hr hr' h
  cases t' with
  | map key' value' =>
    have htext : n.typeChars key ++ ']' :: (n.typeChars value ++ r) =
        n.typeChars key' ++ ']' :: (n.typeChars value' ++ r') := by
      simpa [typeChars_map] using h
    obtain ⟨hkeys, hrest⟩ := hkey key' _ _ ht'.key (stops_cons rfl _) (stops_cons rfl _) htext
    injection hrest with _ hrest
    obtain ⟨hvalues, hrest⟩ := hvalue value' r r' ht'.value hr hr' hrest
    refine ⟨?_, hrest⟩
    show Shape.map (n.shapeOf key) (n.shapeOf value) = .map (n.shapeOf key') (n.shapeOf value')
    rw [hkeys, hvalues]
  | _ => cases hlead

/-- The element of a channel is told from what follows, in parentheses or without. -/
theorem chanElem_inj (hn : n.WellNamed) {dir : ChanDir} {elem elem' : TypeExpr}
    (hsep : n.Separates elem) (hfits : n.Fits elem) (hfits' : n.Fits elem') {r r' : List Char}
    (hr : Stops r) (hr' : Stops r')
    (h : n.typeChars (.chan dir elem) ++ r = n.typeChars (.chan dir elem') ++ r') :
    n.shapeOf elem = n.shapeOf elem' ∧ r = r' := by
  rw [typeChars_chan, typeChars_chan, List.append_assoc, List.append_assoc] at h
  have helem := List.append_cancel_left h
  by_cases henc : dir.encloses elem = true
  · rw [if_pos henc] at helem
    by_cases henc' : dir.encloses elem' = true
    · rw [if_pos henc', List.cons_append, List.cons_append, List.append_assoc,
        List.append_assoc] at helem
      injection helem with _ helem
      obtain ⟨hshape, hrest⟩ :=
        hsep elem' _ _ hfits' (stops_cons rfl _) (stops_cons rfl _) helem
      injection hrest with _ hrest
      exact ⟨hshape, hrest⟩
    · rw [if_neg henc'] at helem
      exact absurd helem.symm (typeChars_append_ne_cons hn hfits' rfl _ _)
  · rw [if_neg henc] at helem
    by_cases henc' : dir.encloses elem' = true
    · rw [if_pos henc'] at helem
      exact absurd helem (typeChars_append_ne_cons hn hfits rfl _ _)
    · rw [if_neg henc'] at helem
      exact hsep elem' r r' hfits' hr hr' helem

theorem separates_chan (hn : n.WellNamed) {dir : ChanDir} {elem : TypeExpr}
    (ht : n.Fits (.chan dir elem)) (helem : n.Separates elem) : n.Separates (.chan dir elem) := by
  refine separates_of_lead hn ht ?_
  intro t' r r' ht' hlead hr hr' h
  cases t' with
  | chan dir' elem' =>
    have hdir : dir = dir' := by
      injection hlead
    rw [← hdir] at h ⊢
    have hfits : n.Fits elem := ⟨ht.wellNamed, ht.inTable⟩
    have hfits' : n.Fits elem' := ⟨ht'.wellNamed, ht'.inTable⟩
    obtain ⟨hshape, hrest⟩ := chanElem_inj hn helem hfits hfits' hr hr' h
    exact ⟨congrArg (Shape.chan dir) hshape, hrest⟩
  | _ => cases hlead

theorem separates_func (hn : n.WellNamed) {s : Signature} (ht : n.Fits (.func s))
    (hs : n.SeparatesSignature s) : n.Separates (.func s) := by
  refine separates_of_lead hn ht ?_
  intro t' r r' ht' hlead hr hr' h
  cases t' with
  | func s' =>
    have htext : n.signatureChars s ++ r = n.signatureChars s' ++ r' := by
      simpa [typeChars_func] using h
    obtain ⟨hshape, hrest⟩ := hs s' r r' ht'.func hr hr' htext
    exact ⟨congrArg Shape.func hshape, hrest⟩
  | _ => cases hlead

theorem separates_struct (hn : n.WellNamed) {fields : List Binding} (ht : n.Fits (.struct fields))
    (hfields : ∀ b ∈ fields, n.Separates b.type) : n.Separates (.struct fields) := by
  refine separates_of_lead hn ht ?_
  intro t' r r' ht' hlead hr hr' h
  cases t' with
  | struct fields' =>
    have htext : [';', ' '].intercalate (fields.map n.fieldChars) ++ '\x7d' :: r =
        [';', ' '].intercalate (fields'.map n.fieldChars) ++ '\x7d' :: r' := by
      simpa [typeChars_struct] using h
    obtain ⟨hshapes, hrest⟩ := intercalate_inj n.fieldShape rfl rfl (by decide)
      (fun b hb => opens_fieldChars hn (ht.field hb).1 (ht.field hb).2)
      (fun b hb => opens_fieldChars hn (ht'.field hb).1 (ht'.field hb).2)
      (fun b hb b' hb' r r' hr hr' => fieldChars_inj hn (hfields b hb) (ht.field hb).1
        (ht'.field hb').1 (ht.field hb).2 (ht'.field hb').2 hr hr') htext
    refine ⟨?_, hrest⟩
    rw [shapeOf, shapeOf, TypeExpr.erase, TypeExpr.erase, Binding.eraseFields_eq,
      Binding.eraseFields_eq]
    exact congrArg Shape.struct hshapes
  | _ => cases hlead

theorem separates_interface (hn : n.WellNamed) {methods : List Method}
    (ht : n.Fits (.interface methods))
    (hmethods : ∀ m ∈ methods, n.SeparatesSignature m.signature) :
    n.Separates (.interface methods) := by
  refine separates_of_lead hn ht ?_
  intro t' r r' ht' hlead hr hr' h
  cases t' with
  | interface methods' =>
    have htext : [';', ' '].intercalate (methods.map n.methodChars) ++ '\x7d' :: r =
        [';', ' '].intercalate (methods'.map n.methodChars) ++ '\x7d' :: r' := by
      simpa [typeChars_interface] using h
    obtain ⟨hshapes, hrest⟩ := intercalate_inj n.methodShape rfl rfl (by decide)
      (fun m hm => opens_name_append (ht.method hm).1 _)
      (fun m hm => opens_name_append (ht'.method hm).1 _)
      (fun m hm m' hm' r r' hr hr' => methodChars_inj (hmethods m hm) (ht.method hm).1
        (ht'.method hm').1 (ht'.method hm').2 hr hr') htext
    refine ⟨?_, hrest⟩
    rw [shapeOf, shapeOf, TypeExpr.erase, TypeExpr.erase, Method.eraseAll_eq, Method.eraseAll_eq]
    exact congrArg Shape.interface hshapes
  | _ => cases hlead

/-! ## All types -/

/-- A type is told from what follows, if the declared types in it are. -/
theorem separates_of_ids (hn : n.WellNamed) {t : TypeExpr} (ht : n.Fits t)
    (hids : ∀ id ∈ t.ids, n.Separates (.named id)) : n.Separates t := by
  induction t using TypeExpr.induct with
  | basic name =>
    exact (WrittenAs.basic ht).separates hn fun _ harg => absurd harg List.not_mem_nil
  | typeParam name =>
    exact (WrittenAs.typeParam ht).separates hn fun _ harg => absurd harg List.not_mem_nil
  | named id => exact hids id (List.mem_singleton_self id)
  | pointer elem ih => exact separates_pointer hn ht (ih ⟨ht.wellNamed, ht.inTable⟩ hids)
  | slice elem ih => exact separates_slice hn ht (ih ⟨ht.wellNamed, ht.inTable⟩ hids)
  | array len elem ih => exact separates_array hn ht (ih ⟨ht.wellNamed, ht.inTable⟩ hids)
  | map key value ihk ihv =>
    exact separates_map hn ht (ihk ht.key fun id hid => hids id (List.mem_append_left _ hid))
      (ihv ht.value fun id hid => hids id (List.mem_append_right _ hid))
  | chan dir elem ih => exact separates_chan hn ht (ih ⟨ht.wellNamed, ht.inTable⟩ hids)
  | func s ih =>
    rw [TypeExpr.ids, Signature.ids_eq] at hids
    refine separates_func hn ht (separatesSignature hn ht.func ?_)
    intro t hpart
    have hin : ∀ id ∈ t.ids, n.Separates (.named id) := fun id hid =>
      hids id (List.mem_flatMap.2 ⟨t, hpart, hid⟩)
    have hfits := ht.func.part hpart
    exact ⟨(ih t hpart).1 hfits hin,
      (ih t hpart).2 hfits.spread (by rw [TypeExpr.ids_spread]; exact hin)⟩
  | struct fields ih =>
    rw [TypeExpr.ids, Binding.listIds_eq] at hids
    refine separates_struct hn ht ?_
    intro b hb
    refine ih b hb (ht.field hb).2 ?_
    exact fun id hid => hids id (List.mem_flatMap.2 ⟨b.type, List.mem_map_of_mem hb, hid⟩)
  | interface methods ih =>
    rw [TypeExpr.ids, Method.listIds_eq] at hids
    refine separates_interface hn ht ?_
    intro m hm
    refine separatesSignature hn (ht.method hm).2 ?_
    intro t hpart
    have hin : ∀ id ∈ t.ids, n.Separates (.named id) := by
      intro id hid
      refine hids id (List.mem_flatMap.2 ⟨m, hm, ?_⟩)
      rw [Signature.ids_eq]
      exact List.mem_flatMap.2 ⟨t, hpart, hid⟩
    have hfits := (ht.method hm).2.part hpart
    exact ⟨(ih m hm t hpart).1 hfits hin,
      (ih m hm t hpart).2 hfits.spread (by rw [TypeExpr.ids_spread]; exact hin)⟩

/-- A declared type is told from what follows. -/
theorem separates_named (hn : n.WellNamed) {id : Nat} (hid : id < n.types.length) :
    n.Separates (.named id) := by
  induction id using hn.acyclic.induct with
  | step id ih =>
    have hd := List.getElem?_eq_getElem hid
    have hmem := List.mem_of_getElem? hd
    refine (WrittenAs.named hn hd).separates hn ?_
    intro arg harg
    have hfits := hn.fits_arg hmem harg
    refine separates_of_ids hn hfits ?_
    exact fun i hi => ih i (hn.defined.shows hd harg hi) (hfits.inTable i hi)

/-- **Every type is told from what follows.** -/
theorem separates (hn : n.WellNamed) {t : TypeExpr} (ht : n.Fits t) : n.Separates t :=
  separates_of_ids hn ht fun id hid => separates_named hn (ht.inTable id hid)

/-- Every signature is told from what follows. -/
theorem FitsSignature.separates (hn : n.WellNamed) {s : Signature} (hs : n.FitsSignature s) :
    n.SeparatesSignature s := by
  refine separatesSignature hn hs ?_
  intro t ht
  exact ⟨Naming.separates hn (hs.part ht), Naming.separates hn (hs.part ht).spread⟩

end Naming

end CallPolicy
