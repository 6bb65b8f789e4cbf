import CallPolicy.Codec.TypeExpr
import CallPolicy.Proofs.JsonValue
import CallPolicy.Proofs.TypeExpr

/-!
# Type expressions are read back as they were written

Writing leaves out an absent name and an empty list of type parameters, and reading takes what is
missing for just these.  So a type expression or a signature whose JSON value is readable is read
back from it, whether it is read at once or was read ahead.

## Main statements

* `TypeExpr.hasTexts_encode`, `Signature.hasTexts_encode` — only texts are written.
* `TypeExpr.readsBack`, `Signature.decode_encode`, `Binding.decode_encode` — what was written is
  read back.
-/

namespace CallPolicy

open Json (ofText ofNat ofMembers listMember nameMember HasTexts Readable written)

/-! ## Lists as library functions -/

/-- A type parameter as a JSON value. -/
def TypeParam.encode (p : TypeParam) : Json :=
  ofMembers [("name", ofText p.name), ("constraint", p.constraint.encode)]

theorem Binding.encodeAll_eq (bs : List Binding) :
    Binding.encodeAll bs = bs.map Binding.encode := by
  induction bs with
  | nil => rfl
  | cons b rest ih =>
    obtain ⟨name, type⟩ := b
    rw [Binding.encodeAll, ih]
    rfl

theorem TypeParam.encodeAll_eq (ps : List TypeParam) :
    TypeParam.encodeAll ps = ps.map TypeParam.encode := by
  induction ps with
  | nil => rfl
  | cons p rest ih =>
    obtain ⟨name, constraint⟩ := p
    rw [TypeParam.encodeAll, ih]
    rfl

theorem Method.encodeAll_eq (ms : List Method) :
    Method.encodeAll ms = ms.map Method.encode := by
  induction ms with
  | nil => rfl
  | cons m rest ih =>
    obtain ⟨name, signature⟩ := m
    rw [Method.encodeAll, ih]
    rfl

theorem Signature.encode_eq (s : Signature) :
    s.encode = ofMembers (listMember "type_params" (s.typeParams.map TypeParam.encode) ++
      [("params", .array (s.params.map Binding.encode)),
        ("results", .array (s.results.map Binding.encode)), ("variadic", .bool s.variadic)]) := by
  obtain ⟨typeParams, params, results, variadic⟩ := s
  rw [Signature.encode, TypeParam.encodeAll_eq, Binding.encodeAll_eq, Binding.encodeAll_eq]

/-! ## Only texts are written -/

theorem Json.hasTexts_choice {name : String} {content : Json} (h : content.HasTexts) :
    (Json.choice name content).HasTexts := by
  simpa [Json.choice, hasTexts_ofMembers_iff] using h

theorem Json.hasTexts_listMember {name : String} {items : List Json}
    (h : (Json.array items).HasTexts) : ∀ m ∈ listMember name items, m.2.HasTexts := by
  unfold listMember
  split
  · simp
  · simpa using h

theorem Binding.hasTexts_encode {b : Binding} (h : b.type.encode.HasTexts) :
    b.encode.HasTexts := by
  obtain ⟨name, type⟩ := b
  rw [Binding.encode, Json.hasTexts_ofMembers_iff]
  cases name with
  | none => simpa [nameMember] using h
  | some name => simpa [nameMember] using h

theorem Signature.hasTexts_of_parts {s : Signature} (h : ∀ t ∈ s.parts, t.encode.HasTexts) :
    s.encode.HasTexts := by
  have hbindings : ∀ {bs : List Binding}, (∀ b ∈ bs, b.type.encode.HasTexts) →
      (Json.array (bs.map Binding.encode)).HasTexts := by
    intro bs hbs
    rw [Json.hasTexts_array_iff, List.forall_mem_map]
    exact fun b hb => Binding.hasTexts_encode (hbs b hb)
  have htypeParams : (Json.array (s.typeParams.map TypeParam.encode)).HasTexts := by
    rw [Json.hasTexts_array_iff, List.forall_mem_map]
    intro p hp
    simpa [TypeParam.encode, Json.hasTexts_ofMembers_iff] using
      h _ (constraint_mem_parts hp)
  have hparams := hbindings fun b hb => h _ (param_mem_parts hb)
  have hresults := hbindings fun b hb => h _ (result_mem_parts hb)
  rw [Signature.encode_eq, Json.hasTexts_ofMembers_iff, List.forall_mem_append]
  refine ⟨Json.hasTexts_listMember htypeParams, ?_⟩
  simp [hparams, hresults]

/-- Only texts are written of a type. -/
theorem TypeExpr.hasTexts_encode (t : TypeExpr) : t.encode.HasTexts := by
  induction t using TypeExpr.induct with
  | basic name => exact Json.hasTexts_choice (Json.hasTexts_ofText name)
  | named id => exact Json.hasTexts_choice (Json.hasTexts_ofNat id)
  | pointer elem ih => exact Json.hasTexts_choice ih
  | slice elem ih => exact Json.hasTexts_choice ih
  | array len elem ih =>
    refine Json.hasTexts_choice ?_
    simpa [Json.hasTexts_ofMembers_iff] using ih
  | map key value ihk ihv =>
    refine Json.hasTexts_choice ?_
    simpa [Json.hasTexts_ofMembers_iff] using ⟨ihk, ihv⟩
  | chan dir elem ih =>
    refine Json.hasTexts_choice ?_
    simpa [Json.hasTexts_ofMembers_iff] using ⟨Json.hasTexts_ofText _, ih⟩
  | func s ih => exact Json.hasTexts_choice (Signature.hasTexts_of_parts fun t ht => (ih t ht).1)
  | struct fields ih =>
    refine Json.hasTexts_choice ?_
    rw [Binding.encodeAll_eq, Json.hasTexts_array_iff, List.forall_mem_map]
    exact fun b hb => Binding.hasTexts_encode (ih b hb)
  | interface methods ih =>
    refine Json.hasTexts_choice ?_
    rw [Method.encodeAll_eq, Json.hasTexts_array_iff, List.forall_mem_map]
    intro m hm
    have hsignature := Signature.hasTexts_of_parts fun t ht => (ih m hm t ht).1
    simpa [Method.encode, Json.hasTexts_ofMembers_iff] using hsignature
  | typeParam name => exact Json.hasTexts_choice (Json.hasTexts_ofText name)

theorem Signature.hasTexts_encode (s : Signature) : s.encode.HasTexts :=
  Signature.hasTexts_of_parts fun t _ => t.hasTexts_encode

/-! ## Reading back -/

/-- A list that is left out when empty has no part in the look at another field. -/
@[simp] theorem Json.valuesOf_listMember {name other : String} {items : List Json}
    (h : other ≠ name) :
    Json.valuesOf name (written (listMember other items)) = [] := by
  unfold listMember
  split <;> simp [h]

/-- A list that is left out when empty is read back if it is when it is there. -/
theorem Json.defaulted_listMember {α : Type} {encode : α → Json} {decode : Json → Option (List α)}
    {xs : List α} (name : String) (before after : List (String × Json))
    (hbefore : ∀ m ∈ before, m.1 ≠ name) (hafter : ∀ m ∈ after, m.1 ≠ name)
    (h : xs ≠ [] → decode (.array (xs.map encode)) = some xs) :
    Json.defaulted [] decode name (written (before ++ listMember name (xs.map encode) ++ after)) =
      some xs := by
  rw [Json.defaulted, Json.valuesOf_written_append, Json.valuesOf_written_append,
    Json.valuesOf_written_eq_nil hbefore, Json.valuesOf_written_eq_nil hafter]
  cases xs with
  | nil => rfl
  | cons x rest => simpa [listMember] using h (by simp)

/-- The type is read back from its JSON value. -/
def TypeExpr.ReadsBack (t : TypeExpr) : Prop :=
  ∀ (ahead : Bool) (bound : Nat), t.encode.Readable bound →
    TypeExpr.decode ahead bound t.encode = some t

theorem Binding.decodeAll_eq (ahead : Bool) :
    Binding.decodeAll ahead = Json.listOf (Binding.decode ahead) := by
  funext bound value
  cases bound <;> cases value <;> simp [Binding.decodeAll, Json.listOf]

theorem TypeParam.decodeAll_eq (ahead : Bool) :
    TypeParam.decodeAll ahead = Json.listOf (TypeParam.decode ahead) := by
  funext bound value
  cases bound <;> cases value <;> simp [TypeParam.decodeAll, Json.listOf]

theorem Method.decodeAll_eq (ahead : Bool) :
    Method.decodeAll ahead = Json.listOf (Method.decode ahead) := by
  funext bound value
  cases bound <;> cases value <;> simp [Method.decodeAll, Json.listOf]

section

variable (ahead : Bool) {bound : Nat}

theorem ChanDir.decode_encode (dir : ChanDir) :
    ChanDir.decode ahead bound dir.encode = some dir := by
  cases dir <;> rfl

theorem Binding.decode_of_readsBack {b : Binding} (h : b.type.ReadsBack)
    (hb : b.encode.Readable bound) : Binding.decode ahead bound b.encode = some b := by
  obtain ⟨name, type⟩ := b
  obtain ⟨inner, rfl, hmembers⟩ := Json.readable_ofMembers_iff.1 hb
  have htype := h ahead inner (hmembers ("type", type.encode) (by simp))
  rw [Binding.decode, Binding.encode, Json.fieldsOf_ofMembers]
  cases name with
  | none => simp [Json.defaulted, Json.required, nameMember, htype]
  | some name =>
    simp [Json.defaulted, Json.required, nameMember, Json.optional?, ofText, Json.text?, htype]

theorem Binding.decodeAll_of_readsBack {bs : List Binding} (h : ∀ b ∈ bs, b.type.ReadsBack)
    (hbs : (Json.array (bs.map Binding.encode)).Readable bound) :
    Binding.decodeAll ahead bound (.array (bs.map Binding.encode)) = some bs := by
  rw [Binding.decodeAll_eq]
  exact Json.listOf_map (fun b hb _ => Binding.decode_of_readsBack ahead (h b hb)) hbs

theorem TypeParam.decode_of_readsBack {p : TypeParam} (h : p.constraint.ReadsBack)
    (hp : p.encode.Readable bound) : TypeParam.decode ahead bound p.encode = some p := by
  obtain ⟨name, constraint⟩ := p
  obtain ⟨inner, rfl, hmembers⟩ := Json.readable_ofMembers_iff.1 hp
  have hconstraint := h ahead inner (hmembers ("constraint", constraint.encode) (by simp))
  rw [TypeParam.decode, TypeParam.encode, Json.fieldsOf_ofMembers]
  simp [Json.required, hconstraint]

theorem TypeParam.decodeAll_of_readsBack {ps : List TypeParam}
    (h : ∀ p ∈ ps, p.constraint.ReadsBack)
    (hps : (Json.array (ps.map TypeParam.encode)).Readable bound) :
    TypeParam.decodeAll ahead bound (.array (ps.map TypeParam.encode)) = some ps := by
  rw [TypeParam.decodeAll_eq]
  exact Json.listOf_map (fun p hp _ => TypeParam.decode_of_readsBack ahead (h p hp)) hps

/-- A signature is read back if its parts are. -/
theorem Signature.decode_of_parts {s : Signature} (h : ∀ t ∈ s.parts, t.ReadsBack)
    (hs : s.encode.Readable bound) : Signature.decode ahead bound s.encode = some s := by
  rw [Signature.encode_eq] at hs ⊢
  obtain ⟨inner, rfl, hmembers⟩ := Json.readable_ofMembers_iff.1 hs
  have htypeParams : s.typeParams ≠ [] → TypeParam.decodeAll ahead inner
      (.array (s.typeParams.map TypeParam.encode)) = some s.typeParams := by
    intro hne
    refine TypeParam.decodeAll_of_readsBack ahead (fun p hp => h _ (constraint_mem_parts hp)) ?_
    exact hmembers ("type_params", _) (by simp [listMember, hne])
  have hparams := Binding.decodeAll_of_readsBack ahead
    (fun b hb => h _ (param_mem_parts hb)) (hmembers ("params", _) (by simp))
  have hresults := Binding.decodeAll_of_readsBack ahead
    (fun b hb => h _ (result_mem_parts hb)) (hmembers ("results", _) (by simp))
  -- whether the type parameters are written depends on whether there are any
  have hread := Json.defaulted_listMember "type_params" []
    [("params", .array (s.params.map Binding.encode)),
      ("results", .array (s.results.map Binding.encode)), ("variadic", .bool s.variadic)]
    (by simp) (by simp) htypeParams
  rw [List.nil_append] at hread
  rw [Signature.decode, Json.fieldsOf_ofMembers, Option.bind_eq_bind, Option.bind_some, hread]
  obtain ⟨typeParams, params, results, variadic⟩ := s
  simp [Json.defaulted, Json.bool?, hparams, hresults]

theorem Method.decode_of_parts {m : Method} (h : ∀ t ∈ m.signature.parts, t.ReadsBack)
    (hm : m.encode.Readable bound) : Method.decode ahead bound m.encode = some m := by
  obtain ⟨name, signature⟩ := m
  obtain ⟨inner, rfl, hmembers⟩ := Json.readable_ofMembers_iff.1 hm
  have hsignature := Signature.decode_of_parts ahead h
    (hmembers ("signature", signature.encode) (by simp))
  rw [Method.decode, Method.encode, Json.fieldsOf_ofMembers]
  simp [Json.required, hsignature]

theorem Method.decodeAll_of_parts {ms : List Method}
    (h : ∀ m ∈ ms, ∀ t ∈ m.signature.parts, t.ReadsBack)
    (hms : (Json.array (ms.map Method.encode)).Readable bound) :
    Method.decodeAll ahead bound (.array (ms.map Method.encode)) = some ms := by
  rw [Method.decodeAll_eq]
  exact Json.listOf_map (fun m hm _ => Method.decode_of_parts ahead (h m hm)) hms

end

/-- The content of a readable choice is readable, with one container less to open. -/
theorem Json.readable_choice_iff {bound : Nat} {name : String} {content : Json} :
    (Json.choice name content).Readable bound ↔
      ∃ inner, bound = inner + 1 ∧ content.Readable inner := by
  rw [Json.choice, readable_ofMembers_iff]
  simp

/-- **Every type is read back from its JSON value.** -/
theorem TypeExpr.readsBack (t : TypeExpr) : t.ReadsBack := by
  induction t using TypeExpr.induct <;> intro ahead bound h
  case basic name =>
    obtain ⟨inner, rfl, -⟩ := Json.readable_choice_iff.1 h
    rfl
  case named id =>
    obtain ⟨inner, rfl, hid⟩ := Json.readable_choice_iff.1 h
    show (Json.nat? (ofNat id)).map _ = _
    rw [hid.nat?]
    rfl
  case pointer elem ih =>
    obtain ⟨inner, rfl, helem⟩ := Json.readable_choice_iff.1 h
    show (TypeExpr.decode ahead inner elem.encode).map _ = _
    rw [ih ahead inner helem]
    rfl
  case slice elem ih =>
    obtain ⟨inner, rfl, helem⟩ := Json.readable_choice_iff.1 h
    show (TypeExpr.decode ahead inner elem.encode).map _ = _
    rw [ih ahead inner helem]
    rfl
  case array len elem ih =>
    obtain ⟨_, rfl, hcontent⟩ := Json.readable_choice_iff.1 h
    obtain ⟨inner, rfl, hmembers⟩ := Json.readable_ofMembers_iff.1 hcontent
    have hlen := (hmembers ("len", ofNat len) (by simp)).nat?
    have helem := ih ahead inner (hmembers ("elem", elem.encode) (by simp))
    show TypeExpr.decodeArray ahead (inner + 1) (ofMembers _) = _
    rw [TypeExpr.decodeArray, Json.fieldsOf_ofMembers]
    simp [Json.required, hlen, helem]
  case map key value ihk ihv =>
    obtain ⟨_, rfl, hcontent⟩ := Json.readable_choice_iff.1 h
    obtain ⟨inner, rfl, hmembers⟩ := Json.readable_ofMembers_iff.1 hcontent
    have hkey := ihk ahead inner (hmembers ("key", key.encode) (by simp))
    have hvalue := ihv ahead inner (hmembers ("value", value.encode) (by simp))
    show TypeExpr.decodeMap ahead (inner + 1) (ofMembers _) = _
    rw [TypeExpr.decodeMap, Json.fieldsOf_ofMembers]
    simp [Json.required, hkey, hvalue]
  case chan dir elem ih =>
    obtain ⟨_, rfl, hcontent⟩ := Json.readable_choice_iff.1 h
    obtain ⟨inner, rfl, hmembers⟩ := Json.readable_ofMembers_iff.1 hcontent
    have helem := ih ahead inner (hmembers ("elem", elem.encode) (by simp))
    show TypeExpr.decodeChan ahead (inner + 1) (ofMembers _) = _
    rw [TypeExpr.decodeChan, Json.fieldsOf_ofMembers]
    simp [Json.defaulted, Json.required, ChanDir.decode_encode, helem]
  case func s ih =>
    obtain ⟨inner, rfl, hs⟩ := Json.readable_choice_iff.1 h
    show (Signature.decode ahead inner s.encode).map _ = _
    rw [Signature.decode_of_parts ahead (fun t ht => (ih t ht).1) hs]
    rfl
  case struct fields ih =>
    obtain ⟨inner, rfl, hfields⟩ := Json.readable_choice_iff.1 h
    show (Binding.decodeAll ahead inner (.array (Binding.encodeAll fields))).map _ = _
    rw [Binding.encodeAll_eq] at hfields ⊢
    rw [Binding.decodeAll_of_readsBack ahead ih hfields]
    rfl
  case interface methods ih =>
    obtain ⟨inner, rfl, hmethods⟩ := Json.readable_choice_iff.1 h
    show (Method.decodeAll ahead inner (.array (Method.encodeAll methods))).map _ = _
    rw [Method.encodeAll_eq] at hmethods ⊢
    rw [Method.decodeAll_of_parts ahead (fun m hm t ht => (ih m hm t ht).1) hmethods]
    rfl
  case typeParam name =>
    obtain ⟨inner, rfl, -⟩ := Json.readable_choice_iff.1 h
    rfl

/-- Every signature is read back from its JSON value. -/
theorem Signature.decode_encode (ahead : Bool) {bound : Nat} {s : Signature}
    (h : s.encode.Readable bound) : Signature.decode ahead bound s.encode = some s :=
  Signature.decode_of_parts ahead (fun t _ => t.readsBack) h

/-- Every binding is read back from its JSON value. -/
theorem Binding.decode_encode (ahead : Bool) {bound : Nat} {b : Binding}
    (h : b.encode.Readable bound) : Binding.decode ahead bound b.encode = some b :=
  Binding.decode_of_readsBack ahead b.type.readsBack h

end CallPolicy
