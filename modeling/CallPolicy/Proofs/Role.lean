import CallPolicy.Codec.Model
import CallPolicy.Proofs.MemberOrder
import CallPolicy.Proofs.TypeCodec

/-!
# What the values in the text of a model stand for

Every value in the text of a model has a *role*: it stands for a record, for a list of records, for
a type expression, and so on.  The role of an object tells which members it knows and what their
values stand for.  For a symbol and for a table entry that depends on the kind, whose tag is one of
the members and may come before or after the members that it governs.

A value is *kept* by another one in its role if whatever is read from the first is read from the
second.  A decoder looks at the members that it knows and at nothing else.  So it reads the same
from members that are *rewritten*: known ones get values that keep theirs, unknown ones are added,
and all are put in some order.

## Main definitions

* `Role.fields` — the members that an object knows.
* `Role.Kept` — a value is read like another one.
* `Role.Rewrites`, `Role.Replaces` — members that are read alike, with and without additions.

## Main statements

* `Rewrites.required`, `Rewrites.defaulted` — a field is read as before.
* `readsFields_model` and its siblings — a record of fields is read as before.
* `occurrence_of_rewrites`, `symbol_of_rewrites`, `typeDef_of_rewrites` — so are the records that
  share an object with what was read ahead.
* `type_of_replaces` — so is a type expression, to which nothing may be added.
-/

namespace CallPolicy

/-! ## What the values in a text stand for -/

/-- What a value in the text of a model stands for. -/
inductive Role where
  /-- A text, a number, a truth value, a choice without content, or what is not read at all. -/
  | other
  /-- A line of a source file. -/
  | line
  | list (items : Role)
  | model
  | package
  | sourceFile
  | occurrence
  | comment
  | symbol
  | typeDef
  /-- A type expression, whose only member names the alternative. -/
  | type
  /-- The content of an array type. -/
  | arrayType
  /-- The content of a map type. -/
  | mapType
  /-- The content of a channel type. -/
  | chanType
  | signature
  | binding
  | typeParam
  | method

namespace Role

/-- The fields of the kind that the tag of a symbol selects. -/
def symbolKind (members : Json.Members) : List (String × Role) :=
  match Json.required (Json.tag? Symbol.Kind.names) "kind" members with
  | some "function" => [("signature", signature)]
  | some "method" => [("receiver", binding), ("signature", signature)]
  | _ => []

/-- The fields of the kind that the tag of a table entry selects. -/
def typeDefKind (members : Json.Members) : List (String × Role) :=
  match Json.required (Json.tag? TypeDef.Kind.names) "kind" members with
  | some "defined" => [("underlying", type)]
  | some "alias" => [("target", type)]
  | _ => []

/-- The members that an object knows, with what their values stand for.  Records that may be written
as arrays have their fields in this order. -/
def fields : Role → Json.Members → List (String × Role)
  | other, _ => []
  | line, _ => []
  | list _, _ => []
  | model, _ => [("packages", list package), ("symbols", list symbol), ("types", list typeDef)]
  | package, _ => [("path", other), ("files", list sourceFile), ("uses", list occurrence),
      ("comments", list comment)]
  | sourceFile, _ => [("path", other), ("lines", list line)]
  | occurrence, _ => [("file", other), ("line", other), ("column", other), ("symbol", other)]
  | comment, _ => [("file", other), ("line", other), ("text", other)]
  | symbol, members =>
    [("name", other), ("module", other), ("kind", other)] ++ symbolKind members
  | typeDef, members =>
    [("module", other), ("name", other), ("args", list type), ("kind", other)] ++
      typeDefKind members
  | type, _ => [("basic", other), ("named", other), ("pointer", type), ("slice", type),
      ("array", arrayType), ("map", mapType), ("chan", chanType), ("func", signature),
      ("struct", list binding), ("interface", list method), ("type_param", other)]
  | arrayType, _ => [("len", other), ("elem", type)]
  | mapType, _ => [("key", type), ("value", type)]
  | chanType, _ => [("dir", other), ("elem", type)]
  | signature, _ => [("type_params", list typeParam), ("params", list binding),
      ("results", list binding), ("variadic", other)]
  | binding, _ => [("name", other), ("type", type)]
  | typeParam, _ => [("name", other), ("constraint", type)]
  | method, _ => [("name", other), ("signature", signature)]

/-- What the value under a name stands for; that of an unknown member is not read. -/
def partOf (fields : List (String × Role)) (name : Json.Literal) : Role :=
  (name.bind fun name => fields.lookup name).getD other

/-- The names of the fields, in their order. -/
def names (role : Role) : List String :=
  (role.fields []).map Prod.fst

/-- What an item of an array stands for: records may be written as arrays of their fields. -/
def itemOf : Role → Nat → Role
  | list items, _ => items
  | role, i => partOf (role.fields []) role.names[i]?

/-- An object in this role stands for a record, which ignores members that it does not know. -/
def isRecord : Role → Bool
  | other | line | list _ | type => false
  | _ => true

/-- The member is not among the fields, and it can be read with `depth` containers left to open. -/
structure Unknown (fields : List (String × Role)) (depth : Nat) (m : Json.Literal × Json) :
    Prop where
  name : ∃ name, m.1 = some name ∧ name ∉ fields.map Prod.fst
  fits : Json.fits depth m.2 = true

/-! ## Reading a value for what it stands for -/

/-- What can be seen of a value without looking into it. -/
def shell : Json → Json
  | .array _ => .array []
  | .object [] => .object []
  | .object (_ :: _) => .array []
  | value => value

/-- What a value is read as. -/
def Value : Role → Type
  | other => Json × Option String
  | line => String
  | list items => List items.Value
  | model => Model
  | package => Package
  | sourceFile => SourceFile
  | occurrence => Occurrence
  | comment => Comment
  | symbol => Symbol
  | typeDef => TypeDef
  | type | arrayType | mapType | chanType => TypeExpr
  | signature => Signature
  | binding => Binding
  | typeParam => TypeParam
  | method => Method

/-- Reads a value for what it stands for. -/
def decode (ahead : Bool) : (role : Role) → Nat → Json → Option role.Value
  | other => fun depth value => some (shell value, Json.unitChoice? ahead depth value)
  | line => fun _ value => value.text?
  | list items => Json.listOf (items.decode ahead)
  | model => Model.decode
  | package => Package.decode
  | sourceFile => SourceFile.decode
  | occurrence => Occurrence.decode
  | comment => Comment.decode
  | symbol => Symbol.decode
  | typeDef => TypeDef.decode
  | type => TypeExpr.decode ahead
  | arrayType => TypeExpr.decodeArray ahead
  | mapType => TypeExpr.decodeMap ahead
  | chanType => TypeExpr.decodeChan ahead
  | signature => Signature.decode ahead
  | binding => Binding.decode ahead
  | typeParam => TypeParam.decode ahead
  | method => Method.decode ahead

/-- What is read from the first value is read from the second one, directly or ahead. -/
structure Kept (role : Role) (depth : Nat) (v w : Json) : Prop where
  decode : ∀ ahead x, role.decode ahead depth v = some x → role.decode ahead depth w = some x
  fits : Json.fits depth v = true → Json.fits depth w = true

namespace Kept

variable {role : Role} {depth : Nat} {u v w : Json}

theorem refl (role : Role) (depth : Nat) (v : Json) : role.Kept depth v v :=
  ⟨fun _ _ h => h, id⟩

theorem trans (huv : role.Kept depth u v) (hvw : role.Kept depth v w) : role.Kept depth u w :=
  ⟨fun ahead x h => hvw.decode ahead x (huv.decode ahead x h), fun h => hvw.fits (huv.fits h)⟩

theorem shell_eq (h : other.Kept depth v w) : shell w = shell v :=
  congrArg Prod.fst (Option.some.inj (h.decode false _ rfl))

theorem unitChoice?_eq (h : other.Kept depth v w) (ahead : Bool) :
    Json.unitChoice? ahead depth w = Json.unitChoice? ahead depth v :=
  congrArg Prod.snd (Option.some.inj (h.decode ahead _ rfl))

end Kept

/-- The reader reads the same from values that are read alike. -/
def Reads {α : Type} (role : Role) (depth : Nat) (read : Json → Option α) : Prop :=
  ∀ v w x, role.Kept depth v w → read v = some x → read w = some x

section

variable {depth : Nat}

theorem Reads.map {α β : Type} {role : Role} {read : Json → Option α} (h : role.Reads depth read)
    (f : α → β) : role.Reads depth fun v => (read v).map f := by
  intro v w x hvw hv
  obtain ⟨y, hy, hx⟩ := Option.map_eq_some_iff.1 hv
  exact Option.map_eq_some_iff.2 ⟨y, h v w y hvw hy, hx⟩

theorem reads_decode (role : Role) (ahead : Bool) : role.Reads depth (role.decode ahead depth) :=
  fun _ _ x h hv => h.decode ahead x hv

/-- A reader that takes no containers reads the same. -/
theorem reads_leaf {α : Type} {read : Json → Option α}
    (harray : ∀ items, read (.array items) = none) (hobject : ∀ ms, read (.object ms) = none) :
    other.Reads depth read := by
  intro v w x h hv
  have hshell := h.shell_eq
  cases v with
  | array items =>
    rw [harray] at hv
    cases hv
  | object ms =>
    rw [hobject] at hv
    cases hv
  | null | bool | number | string =>
    have hw : w = shell w := by
      cases w with
      | object ms => cases ms <;> cases hshell
      | array items => cases hshell
      | _ => rfl
    rw [hw, hshell]
    exact hv

theorem reads_text : other.Reads depth Json.text? :=
  reads_leaf (fun _ => rfl) fun _ => rfl

theorem reads_nat : other.Reads depth Json.nat? :=
  reads_leaf (fun _ => rfl) fun _ => rfl

theorem reads_bool : other.Reads depth Json.bool? :=
  reads_leaf (fun _ => rfl) fun _ => rfl

theorem reads_optionalText : other.Reads depth (Json.optional? Json.text?) :=
  reads_leaf (fun _ => rfl) fun _ => rfl

theorem reads_path : other.Reads depth Path.decode :=
  reads_leaf (fun _ => rfl) fun _ => rfl

theorem reads_module : other.Reads depth ModulePath.decode :=
  reads_leaf (fun _ => rfl) fun _ => rfl

theorem reads_tag (names : List String) : other.Reads depth (Json.tag? names) :=
  reads_leaf (fun _ => rfl) fun _ => rfl

theorem reads_chanDir (ahead : Bool) : other.Reads depth (ChanDir.decode ahead depth) := by
  intro v w x h hv
  rwa [ChanDir.decode, h.unitChoice?_eq ahead]

end

/-! ## Fields of records -/

/-- The second members are the first ones, with values that are read alike, and unknown ones, in
some order. -/
def Rewrites (fields : List (String × Role)) (depth : Nat) (ms ms' : Json.Members) : Prop :=
  Json.Rewritten (fun name => (partOf fields name).Kept depth) (Unknown fields depth) ms ms'

/-- The second members are the first ones in some order, with values that are read alike. -/
def Replaces (fields : List (String × Role)) (depth : Nat) (ms ms' : Json.Members) : Prop :=
  Json.Rewritten (fun name => (partOf fields name).Kept depth) (fun _ => False) ms ms'

section

variable {fields : List (String × Role)} {part : Role} {ms ms' : Json.Members} {depth : Nat}
  {name : String}

theorem Replaces.rewrites (h : Replaces fields depth ms ms') : Rewrites fields depth ms ms' :=
  h.imp fun _ => False.elim

theorem Unknown.ne {m : Json.Literal × Json} (h : Unknown fields depth m)
    (hfield : fields.lookup name = some part) : m.1 ≠ some name := by
  obtain ⟨name', hname', hunknown⟩ := h.name
  obtain ⟨front, rest, rfl, -⟩ := List.lookup_eq_some_iff.1 hfield
  rw [hname']
  rintro ⟨⟩
  exact hunknown (by simp)

theorem partOf_of_lookup (hfield : fields.lookup name = some part) :
    partOf fields (some name) = part := by
  rw [partOf, Option.bind_some, hfield, Option.getD_some]

theorem partOf_nil (name : Json.Literal) : partOf [] name = other := by
  cases name <;> rfl

variable {α : Type} {read : Json → Option α} {x : α} (h : Rewrites fields depth ms ms')
  (hfield : fields.lookup name = some part) (hread : part.Reads depth read)
include h hfield hread

/-- A field that must be there is read as before. -/
theorem Rewrites.required (hms : Json.required read name ms = some x) :
    Json.required read name ms' = some x := by
  refine Json.Rewritten.required h (fun m hm => hm.ne hfield) ?_ hms
  rw [partOf_of_lookup hfield]
  exact fun v w hvw => hread v w x hvw

/-- A field with a default is read as before. -/
theorem Rewrites.defaulted {default : α} (hms : Json.defaulted default read name ms = some x) :
    Json.defaulted default read name ms' = some x := by
  refine Json.Rewritten.defaulted h (fun m hm => hm.ne hfield) ?_ hms
  rw [partOf_of_lookup hfield]
  exact fun v w hvw => hread v w x hvw

end

/-- The fields of the second value, whichever way it is written, are those of the first one
rewritten. -/
def FieldsKept (role : Role) (depth : Nat) (v w : Json) : Prop :=
  ∀ ms, Json.fieldsOf role.names v = some ms →
    ∃ ms', Json.fieldsOf role.names w = some ms' ∧ Rewrites (role.fields []) depth ms ms'

/-- The reader of a record reads the same from rewritten fields. -/
def ReadsFields {α : Type} (role : Role) (depth : Nat) (read : Json → Option α) : Prop :=
  ∀ v w x, role.FieldsKept depth v w → read v = some x → read w = some x

theorem readsFields_model (depth : Nat) :
    model.ReadsFields depth (Model.decode (depth + 1)) := by
  intro v w x h hx
  simp only [Model.decode, Option.bind_eq_bind, Option.bind_eq_some_iff] at hx ⊢
  obtain ⟨fields, hfields, packages, hpackages, symbols, hsymbols, types, htypes, hx⟩ := hx
  obtain ⟨ms', hw, h⟩ := h fields hfields
  exact ⟨ms', hw, packages, h.defaulted rfl (reads_decode (list package) false) hpackages,
    symbols, h.defaulted rfl (reads_decode (list symbol) false) hsymbols,
    types, h.defaulted rfl (reads_decode (list typeDef) false) htypes, hx⟩

theorem readsFields_package (depth : Nat) :
    package.ReadsFields depth (Package.decode (depth + 1)) := by
  intro v w x h hx
  simp only [Package.decode, Option.bind_eq_bind, Option.bind_eq_some_iff] at hx ⊢
  obtain ⟨fields, hfields, path, hpath, files, hfiles, uses, huses, comments, hcomments, hx⟩ := hx
  obtain ⟨ms', hw, h⟩ := h fields hfields
  exact ⟨ms', hw, path, h.required rfl reads_text hpath,
    files, h.defaulted rfl (reads_decode (list sourceFile) false) hfiles,
    uses, h.defaulted rfl (reads_decode (list occurrence) false) huses,
    comments, h.defaulted rfl (reads_decode (list comment) false) hcomments, hx⟩

theorem readsFields_sourceFile (depth : Nat) :
    sourceFile.ReadsFields depth (SourceFile.decode (depth + 1)) := by
  intro v w x h hx
  simp only [SourceFile.decode, Option.bind_eq_bind, Option.bind_eq_some_iff] at hx ⊢
  obtain ⟨fields, hfields, path, hpath, lines, hlines, hx⟩ := hx
  obtain ⟨ms', hw, h⟩ := h fields hfields
  exact ⟨ms', hw, path, h.required rfl reads_path hpath,
    lines, h.defaulted rfl (reads_decode (list line) false) hlines, hx⟩

theorem readsFields_comment (depth : Nat) :
    comment.ReadsFields depth (Comment.decode (depth + 1)) := by
  intro v w x h hx
  simp only [Comment.decode, Option.bind_eq_bind, Option.bind_eq_some_iff] at hx ⊢
  obtain ⟨fields, hfields, file, hfile, line, hline, text, htext, hx⟩ := hx
  obtain ⟨ms', hw, h⟩ := h fields hfields
  exact ⟨ms', hw, file, h.required rfl reads_path hfile, line, h.required rfl reads_nat hline,
    text, h.required rfl reads_text htext, hx⟩

theorem readsFields_arrayType (ahead : Bool) (depth : Nat) :
    arrayType.ReadsFields depth (TypeExpr.decodeArray ahead (depth + 1)) := by
  intro v w x h hx
  simp only [TypeExpr.decodeArray, Option.bind_eq_bind, Option.bind_eq_some_iff] at hx ⊢
  obtain ⟨fields, hfields, len, hlen, elem, helem, hx⟩ := hx
  obtain ⟨ms', hw, h⟩ := h fields hfields
  exact ⟨ms', hw, len, h.required rfl reads_nat hlen,
    elem, h.required rfl (reads_decode type ahead) helem, hx⟩

theorem readsFields_mapType (ahead : Bool) (depth : Nat) :
    mapType.ReadsFields depth (TypeExpr.decodeMap ahead (depth + 1)) := by
  intro v w x h hx
  simp only [TypeExpr.decodeMap, Option.bind_eq_bind, Option.bind_eq_some_iff] at hx ⊢
  obtain ⟨fields, hfields, key, hkey, value, hvalue, hx⟩ := hx
  obtain ⟨ms', hw, h⟩ := h fields hfields
  exact ⟨ms', hw, key, h.required rfl (reads_decode type ahead) hkey,
    value, h.required rfl (reads_decode type ahead) hvalue, hx⟩

theorem readsFields_chanType (ahead : Bool) (depth : Nat) :
    chanType.ReadsFields depth (TypeExpr.decodeChan ahead (depth + 1)) := by
  intro v w x h hx
  simp only [TypeExpr.decodeChan, Option.bind_eq_bind, Option.bind_eq_some_iff] at hx ⊢
  obtain ⟨fields, hfields, dir, hdir, elem, helem, hx⟩ := hx
  obtain ⟨ms', hw, h⟩ := h fields hfields
  exact ⟨ms', hw, dir, h.defaulted rfl (reads_chanDir ahead) hdir,
    elem, h.required rfl (reads_decode type ahead) helem, hx⟩

theorem readsFields_signature (ahead : Bool) (depth : Nat) :
    signature.ReadsFields depth (Signature.decode ahead (depth + 1)) := by
  intro v w x h hx
  simp only [Signature.decode, TypeParam.decodeAll_eq, Binding.decodeAll_eq, Option.bind_eq_bind,
    Option.bind_eq_some_iff] at hx ⊢
  obtain ⟨fields, hfields, typeParams, htypeParams, params, hparams, results, hresults, variadic,
    hvariadic, hx⟩ := hx
  obtain ⟨ms', hw, h⟩ := h fields hfields
  exact ⟨ms', hw, typeParams, h.defaulted rfl (reads_decode (list typeParam) ahead) htypeParams,
    params, h.defaulted rfl (reads_decode (list binding) ahead) hparams,
    results, h.defaulted rfl (reads_decode (list binding) ahead) hresults,
    variadic, h.defaulted rfl reads_bool hvariadic, hx⟩

theorem readsFields_binding (ahead : Bool) (depth : Nat) :
    binding.ReadsFields depth (Binding.decode ahead (depth + 1)) := by
  intro v w x h hx
  simp only [Binding.decode, Option.bind_eq_bind, Option.bind_eq_some_iff] at hx ⊢
  obtain ⟨fields, hfields, name, hname, type, htype, hx⟩ := hx
  obtain ⟨ms', hw, h⟩ := h fields hfields
  exact ⟨ms', hw, name, h.defaulted rfl reads_optionalText hname,
    type, h.required rfl (reads_decode Role.type ahead) htype, hx⟩

theorem readsFields_typeParam (ahead : Bool) (depth : Nat) :
    typeParam.ReadsFields depth (TypeParam.decode ahead (depth + 1)) := by
  intro v w x h hx
  simp only [TypeParam.decode, Option.bind_eq_bind, Option.bind_eq_some_iff] at hx ⊢
  obtain ⟨fields, hfields, name, hname, constraint, hconstraint, hx⟩ := hx
  obtain ⟨ms', hw, h⟩ := h fields hfields
  exact ⟨ms', hw, name, h.required rfl reads_text hname, constraint,
    h.required rfl (reads_decode type ahead) hconstraint, hx⟩

theorem readsFields_method (ahead : Bool) (depth : Nat) :
    method.ReadsFields depth (Method.decode ahead (depth + 1)) := by
  intro v w x h hx
  simp only [Method.decode, Option.bind_eq_bind, Option.bind_eq_some_iff] at hx ⊢
  obtain ⟨fields, hfields, name, hname, signature, hsignature, hx⟩ := hx
  obtain ⟨ms', hw, h⟩ := h fields hfields
  exact ⟨ms', hw, name, h.required rfl reads_text hname,
    signature, h.required rfl (reads_decode Role.signature ahead) hsignature, hx⟩

/-! ## Records that share an object with what was read ahead -/

section

variable {fields : List (String × Role)} {ms ms' : Json.Members} {depth : Nat}

theorem Rewrites.namedMembers? (h : Rewrites fields depth ms ms') {named : Json.Members}
    (hms : Json.namedMembers? ms = some named) :
    named = ms ∧ Json.namedMembers? ms' = some ms' := by
  refine Json.Rewritten.namedMembers? h (fun m hm => ?_) hms
  obtain ⟨name, hname, -⟩ := hm.name
  rw [hname]
  rfl

theorem Rewrites.readAhead? (h : Rewrites fields depth ms ms') {own : List String}
    {others : Json.Members} (hms : Json.readAhead? depth own ms = some others) :
    others = ms.filter (fun m => !own.any fun name => m.1 == some name) ∧
      ∃ others', Json.readAhead? depth own ms' = some others' ∧
        Rewrites fields depth others others' :=
  Json.Rewritten.readAhead? h (fun _ _ _ hvw => hvw.fits) (fun _ hm => hm.fits) hms

theorem occurrence_of_rewrites (h : Rewrites (occurrence.fields ms) depth ms ms') {x : Occurrence}
    (hx : Occurrence.decode (depth + 1) (.object ms) = some x) :
    Occurrence.decode (depth + 1) (.object ms') = some x := by
  simp only [Occurrence.decode, Position.ofFields, Option.bind_eq_bind,
    Option.bind_eq_some_iff] at hx ⊢
  obtain ⟨named, hnamed, symbol, hsymbol, others, hothers, position,
    ⟨file, hfile, line, hline, column, hcolumn, hposition⟩, hx⟩ := hx
  obtain ⟨rfl, hnamed'⟩ := h.namedMembers? hnamed
  obtain ⟨-, others', hothers', h'⟩ := h.readAhead? hothers
  exact ⟨ms', hnamed', symbol, h.required rfl reads_nat hsymbol, others', hothers', position,
    ⟨file, h'.required rfl reads_path hfile, line, h'.required rfl reads_nat hline,
      column, h'.required rfl reads_nat hcolumn, hposition⟩, hx⟩

theorem symbolKind_of_rewrites (h : Rewrites (symbol.fields ms) depth ms ms') {x : Symbol.Kind}
    (hx : Symbol.Kind.ofMembers depth ms = some x) :
    Symbol.Kind.ofMembers depth ms' = some x := by
  simp only [Symbol.Kind.ofMembers, Option.bind_eq_bind, Option.bind_eq_some_iff] at hx ⊢
  obtain ⟨tag, htag, hx⟩ := hx
  refine ⟨tag, h.required rfl (reads_tag _) htag, ?_⟩
  have hfields : symbol.fields ms =
      [("name", other), ("module", other), ("kind", other)] ++ symbolKind ms := rfl
  rw [hfields, symbolKind, htag] at h
  split at hx
  · simp only [Option.bind_eq_some_iff] at hx ⊢
    obtain ⟨signature, hsignature, hx⟩ := hx
    exact ⟨signature, h.required rfl (reads_decode Role.signature true) hsignature, hx⟩
  · simp only [Option.bind_eq_some_iff] at hx ⊢
    obtain ⟨receiver, hreceiver, signature, hsignature, hx⟩ := hx
    exact ⟨receiver, h.required rfl (reads_decode binding true) hreceiver,
      signature, h.required rfl (reads_decode Role.signature true) hsignature, hx⟩
  -- the other kinds have no fields
  all_goals exact hx

theorem typeDefKind_of_rewrites (h : Rewrites (typeDef.fields ms) depth ms ms')
    {x : TypeDef.Kind} (hx : TypeDef.Kind.ofMembers depth ms = some x) :
    TypeDef.Kind.ofMembers depth ms' = some x := by
  simp only [TypeDef.Kind.ofMembers, Option.bind_eq_bind, Option.bind_eq_some_iff] at hx ⊢
  obtain ⟨tag, htag, hx⟩ := hx
  refine ⟨tag, h.required rfl (reads_tag _) htag, ?_⟩
  have hfields : typeDef.fields ms =
      [("module", other), ("name", other), ("args", list type), ("kind", other)] ++
        typeDefKind ms := rfl
  rw [hfields, typeDefKind, htag] at h
  split at hx
  · simp only [Option.bind_eq_some_iff] at hx ⊢
    obtain ⟨underlying, hunderlying, hx⟩ := hx
    exact ⟨underlying, h.required rfl (reads_decode type true) hunderlying, hx⟩
  · simp only [Option.bind_eq_some_iff] at hx ⊢
    obtain ⟨target, htarget, hx⟩ := hx
    exact ⟨target, h.required rfl (reads_decode type true) htarget, hx⟩
  · exact hx

/-- The tag is among the members that are read ahead. -/
theorem required_kind_filter {own : List String} (hkind : "kind" ∉ own) (names : List String) :
    Json.required (Json.tag? names) "kind"
        (ms.filter fun m => !own.any fun name => m.1 == some name) =
      Json.required (Json.tag? names) "kind" ms := by
  rw [Json.required, Json.valuesOf_filter hkind, ← Json.required]

theorem symbol_of_rewrites (h : Rewrites (symbol.fields ms) depth ms ms') {x : Symbol}
    (hx : Symbol.decode (depth + 1) (.object ms) = some x) :
    Symbol.decode (depth + 1) (.object ms') = some x := by
  simp only [Symbol.decode, Option.bind_eq_bind, Option.bind_eq_some_iff] at hx ⊢
  obtain ⟨named, hnamed, name, hname, module, hmodule, others, hothers, kind, hkind, hx⟩ := hx
  obtain ⟨rfl, hnamed'⟩ := h.namedMembers? hnamed
  obtain ⟨hfilter, others', hothers', h'⟩ := h.readAhead? hothers
  -- the tag is among what is read ahead, so the kind has the same fields there
  have hfields : symbol.fields others = symbol.fields named := by
    rw [fields, fields, symbolKind, symbolKind, hfilter, required_kind_filter (by decide)]
  rw [← hfields] at h'
  exact ⟨ms', hnamed', name, h.required rfl reads_text hname,
    module, h.defaulted rfl reads_module hmodule, others', hothers',
    kind, symbolKind_of_rewrites h' hkind, hx⟩

theorem typeDef_of_rewrites (h : Rewrites (typeDef.fields ms) depth ms ms') {x : TypeDef}
    (hx : TypeDef.decode (depth + 1) (.object ms) = some x) :
    TypeDef.decode (depth + 1) (.object ms') = some x := by
  simp only [TypeDef.decode, Option.bind_eq_bind, Option.bind_eq_some_iff] at hx ⊢
  obtain ⟨named, hnamed, module, hmodule, name, hname, args, hargs, others, hothers, kind, hkind,
    hx⟩ := hx
  obtain ⟨rfl, hnamed'⟩ := h.namedMembers? hnamed
  obtain ⟨hfilter, others', hothers', h'⟩ := h.readAhead? hothers
  -- as for a symbol, the tag is among what is read ahead
  have hfields : typeDef.fields others = typeDef.fields named := by
    rw [fields, fields, typeDefKind, typeDefKind, hfilter, required_kind_filter (by decide)]
  rw [← hfields] at h'
  exact ⟨ms', hnamed', module, h.defaulted rfl reads_module hmodule,
    name, h.required rfl reads_text hname,
    args, h.defaulted rfl (reads_decode (list type) false) hargs, others', hothers',
    kind, typeDefKind_of_rewrites h' hkind, hx⟩

end

/-! ## Choices -/

section

variable {ms ms' : Json.Members} {depth : Nat}

/-- An alternative of a type expression is read as before if its content is. -/
theorem alternative_of_replaces {ahead : Bool} {d : Nat} {name : String} {part : Role}
    {content : Json} {read : Json → Option TypeExpr} {x : TypeExpr}
    (h : Replaces (type.fields ms) depth ms ms')
    (hdepth : depth + 1 = d + 1) (hms : Json.object ms = .object [(some name, content)])
    (hfield : (type.fields ms).lookup name = some part) (hread : part.Reads d read)
    (hdecode : ∀ c, TypeExpr.decode ahead (d + 1) (.object [(some name, c)]) = read c)
    (hx : read content = some x) : TypeExpr.decode ahead (depth + 1) (.object ms') = some x := by
  cases hdepth
  cases hms
  obtain ⟨content', rfl, hcontent⟩ := Json.Rewritten.exists_eq_singleton h
  rw [partOf_of_lookup hfield] at hcontent
  rw [hdecode]
  exact hread content content' x hcontent hx

/-- A type expression is read as before if the content of its only member is. -/
theorem type_of_replaces {ahead : Bool}
    (h : Replaces (type.fields ms) depth ms ms')
    {x : TypeExpr} (hx : TypeExpr.decode ahead (depth + 1) (.object ms) = some x) :
    TypeExpr.decode ahead (depth + 1) (.object ms') = some x := by
  unfold TypeExpr.decode at hx
  split at hx
  next hms =>
    exact alternative_of_replaces h rfl hms rfl (reads_text.map .basic)
      (fun _ => by rw [TypeExpr.decode]) hx
  next hms =>
    exact alternative_of_replaces h rfl hms rfl (reads_nat.map .named)
      (fun _ => by rw [TypeExpr.decode]) hx
  next hdepth hms =>
    exact alternative_of_replaces h hdepth hms rfl ((reads_decode type ahead).map .pointer)
      (fun _ => by rw [TypeExpr.decode]; rfl) hx
  next hdepth hms =>
    exact alternative_of_replaces h hdepth hms rfl ((reads_decode type ahead).map .slice)
      (fun _ => by rw [TypeExpr.decode]; rfl) hx
  next hdepth hms =>
    exact alternative_of_replaces h hdepth hms rfl (reads_decode arrayType ahead)
      (fun _ => by rw [TypeExpr.decode]; rfl) hx
  next hdepth hms =>
    exact alternative_of_replaces h hdepth hms rfl (reads_decode mapType ahead)
      (fun _ => by rw [TypeExpr.decode]; rfl) hx
  next hdepth hms =>
    exact alternative_of_replaces h hdepth hms rfl (reads_decode chanType ahead)
      (fun _ => by rw [TypeExpr.decode]; rfl) hx
  next hdepth hms =>
    exact alternative_of_replaces h hdepth hms rfl ((reads_decode signature ahead).map .func)
      (fun _ => by rw [TypeExpr.decode]; rfl) hx
  next hdepth hms =>
    rw [Binding.decodeAll_eq] at hx
    exact alternative_of_replaces h hdepth hms rfl ((reads_decode (list binding) ahead).map .struct)
      (fun _ => by rw [TypeExpr.decode, Binding.decodeAll_eq]; rfl) hx
  next hdepth hms =>
    rw [Method.decodeAll_eq] at hx
    exact alternative_of_replaces h hdepth hms rfl
      ((reads_decode (list method) ahead).map .interface)
      (fun _ => by rw [TypeExpr.decode, Method.decodeAll_eq]; rfl) hx
  next hms =>
    exact alternative_of_replaces h rfl hms rfl (reads_text.map .typeParam)
      (fun _ => by rw [TypeExpr.decode]) hx
  next => cases hx

end

end Role

end CallPolicy
