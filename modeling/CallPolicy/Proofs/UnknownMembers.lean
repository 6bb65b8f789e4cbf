import CallPolicy.Proofs.JsonText
import CallPolicy.Proofs.Role

/-!
# Unknown members and the order of members in the text of a model

A value *grows* when members change places in objects anywhere in it, and when members that are
unknown to them are added to the records in it.  Nothing is added to the other objects, those of
type expressions, whose only member names the alternative.

Each step is made in one place: at an object, in an item of an array or in a member of an object.
So one lemma for arrays and one for objects tell what a step keeps, and the induction on the steps
gives what they keep together.  At the depth where no more containers can be opened there is
nothing to keep, except that what is not looked into looks the same.

## Main statements

* `Role.Kept.record`, `Role.Kept.object`, `Role.Kept.array` — what a step in one place keeps.
* `Role.Kept.of_rearranged`, `Role.Kept.of_grown` — what all steps keep.
* `Model.parse?_of_grown` — the model in a text depends neither on the order of the members nor on
  unknown ones.
-/

namespace CallPolicy

namespace Role

/-- The second value is the first one, with members that are unknown to them added to records in it,
and with the members of objects in another order; `depth` is the number of containers that may be
opened from here on. -/
inductive Grown : Role → Nat → Json → Json → Prop
  | rearranged {role : Role} {depth : Nat} {v w : Json} (h : Json.Rearranged v w) :
    Grown role depth v w
  | trans {role : Role} {depth : Nat} {u v w : Json} (huv : Grown role depth u v)
    (hvw : Grown role depth v w) : Grown role depth u w
  /-- A member is added to a record. -/
  | insert {role : Role} {depth : Nat} (before after : Json.Members) {m : Json.Literal × Json}
    (hrecord : role.isRecord = true) (h : Unknown (role.fields (before ++ after)) depth m) :
    Grown role (depth + 1) (.object (before ++ after)) (.object (before ++ m :: after))
  /-- The change is in an item of an array. -/
  | item {role : Role} {depth : Nat} (before after : List Json) {v w : Json}
    (h : Grown (role.itemOf before.length) depth v w) :
    Grown role (depth + 1) (.array (before ++ v :: after)) (.array (before ++ w :: after))
  /-- The change is in a member of an object. -/
  | member {role : Role} {depth : Nat} (before after : Json.Members) {name : Json.Literal}
    {v w : Json}
    (h : Grown (partOf (role.fields (before ++ (name, v) :: after)) name) depth v w) :
    Grown role (depth + 1) (.object (before ++ (name, v) :: after))
      (.object (before ++ (name, w) :: after))

/-! ## Objects -/

/-- A record whose fields may be written as an array. -/
def isPositional : Role → Bool
  | other | line | list _ | occurrence | symbol | typeDef | type => false
  | _ => true

section

variable {role : Role} {ahead : Bool} {depth : Nat} {ms ms' : Json.Members}

theorem fields_of_isPositional (hrole : role.isPositional = true) (ms : Json.Members) :
    role.fields ms = role.fields [] := by
  cases role <;> first | rfl | cases hrole

theorem readsFields_decode (hrole : role.isPositional = true) :
    role.ReadsFields depth (role.decode ahead (depth + 1)) := by
  cases role with
  | model => exact readsFields_model depth
  | package => exact readsFields_package depth
  | sourceFile => exact readsFields_sourceFile depth
  | comment => exact readsFields_comment depth
  | arrayType => exact readsFields_arrayType ahead depth
  | mapType => exact readsFields_mapType ahead depth
  | chanType => exact readsFields_chanType ahead depth
  | signature => exact readsFields_signature ahead depth
  | binding => exact readsFields_binding ahead depth
  | typeParam => exact readsFields_typeParam ahead depth
  | method => exact readsFields_method ahead depth
  | other | line | list | occurrence | symbol | typeDef | type => cases hrole

/-- The fields of an object are its members. -/
theorem FieldsKept.object (h : Rewrites (role.fields []) depth ms ms') :
    role.FieldsKept depth (.object ms) (.object ms') := by
  intro named hnamed
  obtain ⟨rfl, hnamed'⟩ := h.namedMembers? hnamed
  exact ⟨ms', hnamed', h⟩

/-- A record is read as before from rewritten members. -/
theorem record_of_rewrites (hrecord : role.isRecord = true)
    (h : Rewrites (role.fields ms) depth ms ms') {x : role.Value}
    (hx : role.decode ahead (depth + 1) (.object ms) = some x) :
    role.decode ahead (depth + 1) (.object ms') = some x := by
  cases hrole : role.isPositional with
  | true =>
    rw [fields_of_isPositional hrole] at h
    exact readsFields_decode hrole _ _ x (FieldsKept.object h) hx
  | false =>
    cases role with
    | occurrence => exact occurrence_of_rewrites h hx
    | symbol => exact symbol_of_rewrites h hx
    | typeDef => exact typeDef_of_rewrites h hx
    | _ => contradiction

/-- A record keeps what is read from it when unknown members are added. -/
theorem Kept.record (hrecord : role.isRecord = true)
    (h : Rewrites (role.fields ms) depth ms ms') :
    role.Kept (depth + 1) (.object ms) (.object ms') where
  decode _ _ hx := record_of_rewrites hrecord h hx
  fits hms := by
    refine Json.Rewritten.fits h (fun _ _ _ hvw => hvw.fits) (fun m hm => ⟨?_, hm.fits⟩) hms
    obtain ⟨name, hname, -⟩ := hm.name
    rw [hname, Option.isSome_some]

/-- Whether there is anything under the name of a choice is seen without looking into it. -/
theorem unitChoice?_shell (ahead : Bool) (depth : Nat) (name : Json.Literal) (v : Json) :
    Json.unitChoice? ahead (depth + 1) (.object [(name, shell v)]) =
      Json.unitChoice? ahead (depth + 1) (.object [(name, v)]) := by
  cases v with
  | object ms => cases ms <;> rfl
  | _ => rfl

theorem unitChoice?_of_replaces (h : Replaces (other.fields ms) depth ms ms') :
    Json.unitChoice? ahead (depth + 1) (.object ms') =
      Json.unitChoice? ahead (depth + 1) (.object ms) := by
  match ms, ms', Json.Rewritten.length_eq h with
  | [], [], _ => rfl
  | [(name, v)], _, _ =>
    obtain ⟨w, rfl, hvw⟩ := Json.Rewritten.exists_eq_singleton h
    rw [fields, partOf_nil] at hvw
    rw [← unitChoice?_shell, hvw.shell_eq, unitChoice?_shell]
  | _ :: _ :: _, _ :: _ :: _, _ => simp only [Json.unitChoice?]

theorem shell_object (h : ms'.length = ms.length) :
    shell (.object ms') = shell (.object ms) := by
  match ms, ms', h with
  | [], [], _ => rfl
  | _ :: _, _ :: _, _ => rfl

/-- What is not looked into is read alike if it looks alike. -/
theorem decode_other {v w : Json} (hshell : shell w = shell v)
    (hchoice : Json.unitChoice? ahead depth w = Json.unitChoice? ahead depth v) :
    other.decode ahead depth w = other.decode ahead depth v :=
  congrArg some (Prod.ext hshell hchoice)

/-- An object is read as before when its members change places, and values in it are read alike. -/
theorem Kept.object (h : Replaces (role.fields ms) depth ms ms') :
    role.Kept (depth + 1) (.object ms) (.object ms') := by
  cases hrecord : role.isRecord with
  | true => exact Kept.record hrecord h.rewrites
  | false =>
    refine ⟨fun ahead x hx => ?_, Json.Rewritten.fits h (fun _ _ _ hvw => hvw.fits) nofun⟩
    cases role with
    | other =>
      rwa [decode_other (shell_object (Json.Rewritten.length_eq h)) (unitChoice?_of_replaces h)]
    | line | list => cases hx
    | type => exact type_of_replaces h hx
    | _ => contradiction

/-! ## Arrays -/

variable {before after : List Json} {v w : Json}

/-- An array of the fields of a record, of which one is read alike. -/
theorem FieldsKept.array (h : (partOf (role.fields []) role.names[before.length]?).Kept depth v w) :
    role.FieldsKept depth (.array (before ++ v :: after)) (.array (before ++ w :: after)) := by
  intro ms hms
  simp only [Json.fieldsOf, List.length_append, List.length_cons] at hms ⊢
  split at hms
  next hlength =>
    rw [if_pos hlength]
    -- the names split where the items do
    have hlt : before.length < role.names.length := by omega
    have hnames : role.names.map some = (role.names.take before.length).map some ++
        some role.names[before.length] :: (role.names.drop (before.length + 1)).map some := by
      rw [← List.map_cons, ← List.map_append, ← List.drop_eq_getElem_cons hlt,
        List.take_append_drop]
    have hfront : ((role.names.take before.length).map some).length = before.length := by
      rw [List.length_map, List.length_take_of_le (by omega)]
    rw [hnames, List.zip_append hfront, List.zip_cons_cons] at hms
    rw [hnames, List.zip_append hfront, List.zip_cons_cons]
    rw [List.getElem?_eq_getElem hlt] at h
    cases hms
    exact ⟨_, rfl, Json.Rewritten.of_member (fun _ => Kept.refl _ depth) h _ _⟩
  next => cases hms

/-- A list is read as before when an item in it is read alike. -/
theorem mapM_of_kept {items : Role} (h : items.Kept depth v w) {x : List items.Value}
    (hx : (before ++ v :: after).mapM (items.decode ahead depth) = some x) :
    (before ++ w :: after).mapM (items.decode ahead depth) = some x := by
  simp only [List.mapM_append, List.mapM_cons, Option.bind_eq_bind, Option.bind_eq_some_iff] at hx ⊢
  obtain ⟨front, hfront, _, ⟨y, hy, hrest⟩, hx⟩ := hx
  exact ⟨front, hfront, _, ⟨y, h.decode ahead y hy, hrest⟩, hx⟩

/-- An array is read as before when an item in it is read alike. -/
theorem Kept.array (h : (role.itemOf before.length).Kept depth v w) :
    role.Kept (depth + 1) (.array (before ++ v :: after)) (.array (before ++ w :: after)) := by
  refine ⟨fun ahead x hx => ?_, ?_⟩
  · cases hrole : role.isPositional with
    | true =>
      refine readsFields_decode hrole _ _ x (FieldsKept.array ?_) hx
      cases role <;> first | exact h | contradiction
    | false =>
      cases role with
      | list items => exact mapM_of_kept h hx
      | other => exact hx
      | line | type | symbol | typeDef | occurrence => cases hx
      | _ => contradiction
  · simp only [Json.fits, List.all_append, List.all_cons, Bool.and_eq_true]
    rintro ⟨hbefore, hv, hafter⟩
    exact ⟨hbefore, h.fits hv, hafter⟩

/-! ## Containers that cannot be opened -/

/-- Of an object that cannot be opened, nothing is read but whether it has members. -/
theorem Kept.closedObject (role : Role) (h : ms'.length = ms.length) :
    role.Kept 0 (.object ms) (.object ms') := by
  refine ⟨fun ahead x hx => ?_, nofun⟩
  cases role with
  | other => rwa [decode_other (shell_object h) (by simp only [Json.unitChoice?])]
  | _ => cases hx

theorem Kept.closedArray (role : Role) (items items' : List Json) :
    role.Kept 0 (.array items) (.array items') := by
  refine ⟨fun ahead x hx => ?_, nofun⟩
  cases role with
  | other => exact hx
  | _ => cases hx

/-! ## Whole values -/

/-- A value is read as before when members of objects in it change places. -/
theorem Kept.of_rearranged (h : Json.Rearranged v w) (role : Role) (depth : Nat) :
    role.Kept depth v w := by
  induction h generalizing role depth with
  | refl value => exact Kept.refl role depth value
  | trans _ _ ihuv ihvw => exact (ihuv role depth).trans (ihvw role depth)
  | members hperm =>
    cases depth with
    | zero => exact Kept.closedObject role hperm.length_eq.symm
    | succ depth => exact Kept.object (Json.Rewritten.of_perm (fun _ => Kept.refl _ depth) hperm)
  | item before after _ ih =>
    cases depth with
    | zero => exact Kept.closedArray role _ _
    | succ depth => exact Kept.array (ih _ depth)
  | member before after _ ih =>
    cases depth with
    | zero => exact Kept.closedObject role (by simp)
    | succ depth =>
      exact Kept.object
        (Json.Rewritten.of_member (fun _ => Kept.refl _ depth) (ih _ depth) before after)

/-- A value is read as before when members that are unknown to them are added to records in it. -/
theorem Kept.of_grown (h : role.Grown depth v w) : role.Kept depth v w := by
  induction h with
  | rearranged h => exact Kept.of_rearranged h _ _
  | trans _ _ ihuv ihvw => exact ihuv.trans ihvw
  | insert before after hrecord h =>
    exact Kept.record hrecord (Json.Rewritten.of_insert (fun _ => Kept.refl _ _) h before after)
  | item before after _ ih => exact Kept.array ih
  | member before after _ ih =>
    exact Kept.object (Json.Rewritten.of_member (fun _ => Kept.refl _ _) ih before after)

end

end Role

/-! ## Texts of models -/

/-- **The model in a text depends neither on the order of the members nor on unknown ones.**  And a
text with no model in it has none when members change places. -/
theorem Model.parse?_of_grown {text text' : String} {value value' : Json}
    (htext : Json.parse? text = some value) (htext' : Json.parse? text' = some value') :
    (Role.model.Grown Json.maxDepth value value' →
      ∀ m, Model.parse? text = some m → Model.parse? text' = some m) ∧
    (Json.Rearranged value value' → Model.parse? text = none → Model.parse? text' = none) := by
  simp only [Model.parse?, htext, htext', Option.bind_some]
  refine ⟨fun h => (Role.Kept.of_grown h).decode false, fun h hnone => ?_⟩
  -- members can change back, so a model in the second text would be one in the first
  refine Option.eq_none_iff_forall_ne_some.2 fun m hm => ?_
  have hback := (Role.Kept.of_rearranged h.symm .model Json.maxDepth).decode false m hm
  cases hnone.symm.trans hback

/-- A model with one symbol, of the given members. -/
def Json.symbolOf (members : List (String × Json)) : Json :=
  ofMembers [("symbols", .array [ofMembers members])]

/-- A function, whose kind is written before what belongs to it. -/
def Json.kindFirst : Json :=
  symbolOf [("kind", ofText "function"), ("name", ofText "f"), ("signature", ofMembers [])]

/-- The same function with its kind at the end, and with unknown members at two levels. -/
def Json.kindLast : Json :=
  symbolOf [("signature", ofMembers [("x", .array [ofMembers []])]), ("x", .null),
    ("name", ofText "f"), ("kind", ofText "function")]

/-- A function without a signature, which is no symbol. -/
def Json.unsigned : Json :=
  symbolOf [("kind", ofText "function"), ("name", ofText "f")]

/-- The same with the kind at the end. -/
def Json.unsignedLast : Json :=
  symbolOf [("name", ofText "f"), ("kind", ofText "function")]

open Json (kindFirst kindLast unsigned unsignedLast ofMembers) in
theorem Model.parse?_of_grown_kindLast :
    Json.parse? (Json.pretty 0 kindFirst ++ "\n") = some kindFirst ∧
    Json.parse? (Json.pretty 0 kindLast ++ "\n") = some kindLast ∧
    Role.model.Grown Json.maxDepth kindFirst kindLast ∧
    Model.parse? (Json.pretty 0 kindFirst ++ "\n") =
      some { symbols := [⟨"f", ⟨""⟩, .function {}⟩] } ∧
    Model.parse? (Json.pretty 0 kindLast ++ "\n") =
      some { symbols := [⟨"f", ⟨""⟩, .function {}⟩] } ∧
    Json.Rearranged unsigned unsignedLast ∧
    Model.parse? (Json.pretty 0 unsigned ++ "\n") = none ∧
    Model.parse? (Json.pretty 0 unsignedLast ++ "\n") = none := by
  have hwords : kindFirst.HasWords ∧ kindLast.HasWords ∧ unsigned.HasWords ∧
      unsignedLast.HasWords := by
    unfold Json.HasWords
    decide +kernel
  obtain ⟨hfirst, hlast, hunsigned, hunsignedLast⟩ := hwords
  have hmodel : Model.parse? (Json.pretty 0 kindFirst ++ "\n") =
      some { symbols := [⟨"f", ⟨""⟩, .function {}⟩] } := by
    rw [Model.parse?, Json.parse?_pretty hfirst]
    rfl
  have hgrown : Role.model.Grown Json.maxDepth kindFirst kindLast := by
    refine .member [] [] (.item [] [] ?_)
    refine .trans (.rearranged (.members (List.reverse_perm _).symm)) ?_
    refine .trans (.insert [(some "signature", ofMembers [])] _ (m := (some "x", .null)) rfl
      ⟨⟨"x", rfl, by decide⟩, rfl⟩) ?_
    refine .member [] _ ?_
    exact .insert [] [] (m := (some "x", .array [ofMembers []])) rfl ⟨⟨"x", rfl, by decide⟩, rfl⟩
  have hrearranged : Json.Rearranged unsigned unsignedLast :=
    .member [] [] (.item [] [] (.members (List.Perm.swap _ _ [])))
  have hnone : Model.parse? (Json.pretty 0 unsigned ++ "\n") = none := by
    rw [Model.parse?, Json.parse?_pretty hunsigned]
    rfl
  have htexts := Model.parse?_of_grown (Json.parse?_pretty hfirst) (Json.parse?_pretty hlast)
  have hnoTexts :=
    Model.parse?_of_grown (Json.parse?_pretty hunsigned) (Json.parse?_pretty hunsignedLast)
  exact ⟨Json.parse?_pretty hfirst, Json.parse?_pretty hlast, hgrown, hmodel,
    htexts.1 hgrown _ hmodel, hrearranged, hnone, hnoTexts.2 hrearranged hnone⟩

end CallPolicy
