import CallPolicy.Codec.Report
import CallPolicy.Proofs.TypeCodec

/-!
# Models and reports are read back as they were written

A symbol and a table entry are written into one object with the fields of their kind, and an
occurrence into one with its position.  The reader cannot tell these members apart at once: it takes
its own and reads the others ahead.  What was written holds texts only, so it can be read ahead
whenever it can be read.

## Main statements

* `Json.readAhead?_written` — what is left after the own members were taken out.
* `Symbol.decode_encode`, `TypeDef.decode_encode`, `Occurrence.decode_encode` — what shares an
  object is read back.
* `formats_roundTrip` — every value of the model format and of the report format is read back.
-/

namespace CallPolicy

open Json (ofText ofNat ofMembers listMember HasTexts Readable written)

/-! ## Positions, files, comments -/

section

variable {bound : Nat}

theorem Position.ofFields_members {p : Position} (h : ∀ m ∈ p.members, m.2.Readable bound) :
    Position.ofFields (written p.members) = some p := by
  have hline := (h ("line", ofNat p.line) (by simp [members])).nat?
  have hcolumn := (h ("column", ofNat p.column) (by simp [members])).nat?
  simp [Position.ofFields, members, Json.required, Path.decode, Path.encode, hline, hcolumn]

theorem Position.decode_encode {p : Position} (h : p.encode.Readable bound) :
    Position.decode bound p.encode = some p := by
  obtain ⟨inner, rfl, hmembers⟩ := Json.readable_ofMembers_iff.1 h
  rw [Position.decode, Position.encode, Json.fieldsOf_ofMembers, Option.bind_some]
  exact Position.ofFields_members hmembers

theorem SourceFile.decode_encode {f : SourceFile} (h : f.encode.Readable bound) :
    SourceFile.decode bound f.encode = some f := by
  obtain ⟨inner, rfl, hmembers⟩ := Json.readable_ofMembers_iff.1 h
  have hlines : f.lines ≠ [] →
      Json.listOf (fun _ => Json.text?) inner (.array (f.lines.map ofText)) = some f.lines := by
    intro hne
    exact Json.listOf_map (fun line _ _ _ => Json.text?_ofText line)
      (hmembers ("lines", _) (by simp [listMember, hne]))
  have hread := Json.defaulted_listMember "lines" [("path", f.path.encode)] [] (by simp) (by simp)
    hlines
  rw [List.append_nil, List.singleton_append] at hread
  rw [SourceFile.decode, SourceFile.encode, Json.fieldsOf_ofMembers, Option.bind_eq_bind,
    Option.bind_some, hread]
  simp [Json.required, Path.decode, Path.encode]

theorem Comment.decode_encode {c : Comment} (h : c.encode.Readable bound) :
    Comment.decode bound c.encode = some c := by
  obtain ⟨inner, rfl, hmembers⟩ := Json.readable_ofMembers_iff.1 h
  have hline := (hmembers ("line", ofNat c.line) (by simp)).nat?
  rw [Comment.decode, Comment.encode, Json.fieldsOf_ofMembers]
  simp [Json.required, Path.decode, Path.encode, hline]

/-! ## Members that are read ahead -/

/-- The members other than the named ones are read ahead as they were written. -/
theorem Json.readAhead?_written {own : List String} {members others : List (String × Json)}
    (hothers : (members.filter fun m => m.1 ∉ own) = others)
    (h : ∀ m ∈ others, m.2.Readable bound) (htexts : ∀ m ∈ others, m.2.HasTexts) :
    Json.readAhead? bound own (written members) = some (written others) := by
  have hfilter : ((written members).filter fun m => !own.any fun name => m.1 == some name) =
      written others := by
    rw [written, List.filter_map, ← hothers]
    congr 2
    funext m
    simp [List.any_beq, List.contains_eq_mem]
  rw [Json.readAhead?, hfilter, if_pos]
  simp only [written, List.all_map, List.all_eq_true]
  exact fun m hm => Json.fits_of_readable (h m hm) (htexts m hm)

theorem Position.hasTexts_members (p : Position) : ∀ m ∈ p.members, m.2.HasTexts := by
  simp [members, Path.encode]

theorem Occurrence.decode_encode {o : Occurrence} (h : o.encode.Readable bound) :
    Occurrence.decode bound o.encode = some o := by
  obtain ⟨inner, rfl, hmembers⟩ := Json.readable_ofMembers_iff.1 h
  have hsymbol := (hmembers ("symbol", ofNat o.symbol) (by simp)).nat?
  have hposition : ∀ m ∈ o.position.members, m.2.Readable inner :=
    fun m hm => hmembers m (List.mem_append_left _ hm)
  have hothers : (o.position.members ++ [("symbol", ofNat o.symbol)]).filter
      (fun m => m.1 ∉ ["symbol"]) = o.position.members := by
    simp [Position.members]
  have hread : Json.required Json.nat? "symbol" (written (o.position.members ++
      [("symbol", ofNat o.symbol)])) = some o.symbol := by
    simp [Position.members, Json.required, hsymbol]
  rw [Occurrence.encode, Json.ofMembers_eq, Occurrence.decode, Json.namedMembers?_written]
  simp only [Option.bind_eq_bind, Option.bind_some, hread,
    Json.readAhead?_written hothers hposition o.position.hasTexts_members,
    Position.ofFields_members hposition]

/-! ## Symbols and declared types -/

theorem Symbol.Kind.hasTexts_members (k : Symbol.Kind) : ∀ m ∈ k.members, m.2.HasTexts := by
  cases k with
  | function signature =>
    simp [members, signature.hasTexts_encode]
  | method receiver signature =>
    simp [members, signature.hasTexts_encode,
      Binding.hasTexts_encode receiver.type.hasTexts_encode]
  | «variable» => simp [members]
  | constant => simp [members]
  | typeName => simp [members]

theorem Json.tag?_ofText {names : List String} {name : String} (h : name ∈ names) :
    Json.tag? names (ofText name) = some name :=
  if_pos h

theorem Symbol.Kind.ofMembers_members {k : Symbol.Kind} (h : ∀ m ∈ k.members, m.2.Readable bound) :
    Symbol.Kind.ofMembers bound (written k.members) = some k := by
  cases k with
  | function signature =>
    have hsignature := Signature.decode_encode true
      (h ("signature", signature.encode) (by simp [members]))
    simp [ofMembers, members, Json.required, Json.tag?_ofText, names, hsignature]
  | method receiver signature =>
    have hreceiver := Binding.decode_encode true
      (h ("receiver", receiver.encode) (by simp [members]))
    have hsignature := Signature.decode_encode true
      (h ("signature", signature.encode) (by simp [members]))
    simp [ofMembers, members, Json.required, Json.tag?_ofText, names, hreceiver, hsignature]
  | «variable» => rfl
  | constant => rfl
  | typeName => rfl

theorem Symbol.decode_encode {s : Symbol} (h : s.encode.Readable bound) :
    Symbol.decode bound s.encode = some s := by
  obtain ⟨inner, rfl, hmembers⟩ := Json.readable_ofMembers_iff.1 h
  have hkind : ∀ m ∈ s.kind.members, m.2.Readable inner :=
    fun m hm => hmembers m (List.mem_append_right _ hm)
  have hnames : ∀ m ∈ s.kind.members, m.1 ≠ "name" ∧ m.1 ≠ "module" := by
    cases s.kind <;> simp [Kind.members]
  -- the kind is what is left when the name and the module are taken out
  have hothers : ([("name", ofText s.name), ("module", ofText s.module.text)] ++
      s.kind.members).filter (fun m => m.1 ∉ ["name", "module"]) = s.kind.members := by
    simpa [List.filter_eq_self] using fun name value hm => hnames (name, value) hm
  rw [Symbol.encode, Json.ofMembers_eq, Symbol.decode, Json.namedMembers?_written]
  simp only [Option.bind_eq_bind, Option.bind_some,
    Json.readAhead?_written hothers hkind s.kind.hasTexts_members, Kind.ofMembers_members hkind]
  simp [Json.required, Json.defaulted, ModulePath.decode,
    Json.valuesOf_written_eq_nil fun m hm => (hnames m hm).1,
    Json.valuesOf_written_eq_nil fun m hm => (hnames m hm).2]

theorem TypeDef.Kind.hasTexts_members (k : TypeDef.Kind) : ∀ m ∈ k.members, m.2.HasTexts := by
  cases k with
  | defined underlying => simp [members, underlying.hasTexts_encode]
  | «alias» target => simp [members, target.hasTexts_encode]

theorem TypeDef.Kind.ofMembers_members {k : TypeDef.Kind}
    (h : ∀ m ∈ k.members, m.2.Readable bound) :
    TypeDef.Kind.ofMembers bound (written k.members) = some k := by
  cases k with
  | defined underlying =>
    have hunderlying := underlying.readsBack true bound
      (h ("underlying", underlying.encode) (by simp [members]))
    simp [ofMembers, members, Json.required, Json.tag?_ofText, names, hunderlying]
  | «alias» target =>
    have htarget := target.readsBack true bound
      (h ("target", target.encode) (by simp [members]))
    simp [ofMembers, members, Json.required, Json.tag?_ofText, names, htarget]

theorem TypeDef.decode_encode {d : TypeDef} (h : d.encode.Readable bound) :
    TypeDef.decode bound d.encode = some d := by
  obtain ⟨inner, rfl, hmembers⟩ := Json.readable_ofMembers_iff.1 h
  have hkind : ∀ m ∈ d.kind.members, m.2.Readable inner :=
    fun m hm => hmembers m (List.mem_append_right _ hm)
  have hnames : ∀ m ∈ d.kind.members, m.1 ≠ "module" ∧ m.1 ≠ "name" ∧ m.1 ≠ "args" := by
    cases d.kind <;> simp [Kind.members]
  have hothers : ([("module", ofText d.module.text), ("name", ofText d.name)] ++
      listMember "args" (d.args.map TypeExpr.encode) ++ d.kind.members).filter
        (fun m => m.1 ∉ ["module", "name", "args"]) = d.kind.members := by
    have hargs : (listMember "args" (d.args.map TypeExpr.encode)).filter
        (fun m => m.1 ∉ ["module", "name", "args"]) = [] := by
      unfold listMember
      split <;> simp
    rw [List.filter_append, List.filter_append, hargs]
    simpa [List.filter_eq_self] using fun name value hm => hnames (name, value) hm
  have hargs : d.args ≠ [] → Json.listOf (TypeExpr.decode false) inner
      (.array (d.args.map TypeExpr.encode)) = some d.args := by
    intro hne
    exact Json.listOf_map (fun t _ => t.readsBack false)
      (hmembers ("args", _) (by simp [listMember, hne]))
  have hread := Json.defaulted_listMember "args"
    [("module", ofText d.module.text), ("name", ofText d.name)] d.kind.members (by simp)
    (fun m hm => (hnames m hm).2.2) hargs
  rw [TypeDef.encode, Json.ofMembers_eq, TypeDef.decode, Json.namedMembers?_written]
  simp only [Option.bind_eq_bind, Option.bind_some, hread,
    Json.readAhead?_written hothers hkind d.kind.hasTexts_members, Kind.ofMembers_members hkind]
  simp [Json.required, Json.defaulted, ModulePath.decode,
    Json.valuesOf_written_eq_nil fun m hm => (hnames m hm).1,
    Json.valuesOf_written_eq_nil fun m hm => (hnames m hm).2.1]

/-! ## Models and reports -/

theorem Package.decode_encode {p : Package} (h : p.encode.Readable bound) :
    Package.decode bound p.encode = some p := by
  obtain ⟨inner, rfl, hmembers⟩ := Json.readable_ofMembers_iff.1 h
  have hfiles := Json.listOf_map (fun _ _ _ => SourceFile.decode_encode)
    (hmembers ("files", .array (p.files.map SourceFile.encode)) (by simp))
  have huses := Json.listOf_map (fun _ _ _ => Occurrence.decode_encode)
    (hmembers ("uses", .array (p.uses.map Occurrence.encode)) (by simp))
  have hcomments := Json.listOf_map (fun _ _ _ => Comment.decode_encode)
    (hmembers ("comments", .array (p.comments.map Comment.encode)) (by simp))
  rw [Package.decode, Package.encode, Json.fieldsOf_ofMembers]
  simp [Json.required, Json.defaulted, hfiles, huses, hcomments]

theorem Model.decode_encode {m : Model} (h : m.encode.Readable bound) :
    Model.decode bound m.encode = some m := by
  obtain ⟨inner, rfl, hmembers⟩ := Json.readable_ofMembers_iff.1 h
  have hpackages := Json.listOf_map (fun _ _ _ => Package.decode_encode)
    (hmembers ("packages", .array (m.packages.map Package.encode)) (by simp))
  have hsymbols := Json.listOf_map (fun _ _ _ => Symbol.decode_encode)
    (hmembers ("symbols", .array (m.symbols.map Symbol.encode)) (by simp))
  have htypes := Json.listOf_map (fun _ _ _ => TypeDef.decode_encode)
    (hmembers ("types", .array (m.types.map TypeDef.encode)) (by simp [TypeTable.encode]))
  rw [Model.decode, Model.encode, Json.fieldsOf_ofMembers]
  simp [Json.defaulted, TypeTable.decode, TypeTable.encode, hpackages, hsymbols,
    htypes]

theorem Reference.decode_encode {r : Reference} (h : r.encode.Readable bound) :
    Reference.decode bound r.encode = some r := by
  obtain ⟨inner, rfl, hmembers⟩ := Json.readable_ofMembers_iff.1 h
  have hposition := Position.decode_encode (hmembers ("position", r.position.encode) (by simp))
  rw [Reference.decode, Reference.encode, Json.fieldsOf_ofMembers]
  simp [Json.required, hposition]

theorem Mode.decode_label (mode : Mode) : Mode.decode bound (ofText mode.label) = some mode := by
  cases mode <;> rfl

theorem Diagnostic.decode_encode {d : Diagnostic} (h : d.encode.Readable bound) :
    Diagnostic.decode bound d.encode = some d := by
  obtain ⟨inner, rfl, hmembers⟩ := Json.readable_ofMembers_iff.1 h
  have hposition := Position.decode_encode (hmembers ("position", d.position.encode) (by simp))
  rw [Diagnostic.decode, Diagnostic.encode, Json.fieldsOf_ofMembers]
  simp [Json.required, hposition]

theorem Report.decode_encode {r : Report} (h : r.encode.Readable bound) :
    Report.decode bound r.encode = some r := by
  obtain ⟨inner, rfl, hmembers⟩ := Json.readable_ofMembers_iff.1 h
  have hdiagnostics := Json.listOf_map (fun _ _ _ => Diagnostic.decode_encode)
    (hmembers ("diagnostics", .array (r.diagnostics.map Diagnostic.encode)) (by simp))
  have hpackages := (hmembers ("packages_checked", ofNat r.packagesChecked) (by simp)).nat?
  have hfiles := (hmembers ("files_checked", ofNat r.filesChecked) (by simp)).nat?
  have hsuppressed := (hmembers ("suppressed", ofNat r.suppressed) (by simp)).nat?
  rw [Report.decode, Report.encode, Json.fieldsOf_ofMembers]
  simp [Json.required, Mode.decode_label, hdiagnostics, hpackages, hfiles,
    hsuppressed]

end

/-- Whatever is written within the limits of the format is read back: at most `maxDepth` arrays and
objects are open at a time, and every number is a 64-bit word. -/
def Json.RoundTrips {α : Type} (encode : α → Json) (decode : Nat → Json → Option α) : Prop :=
  ∀ x, (encode x).depth ≤ Json.maxDepth → (encode x).HasWords →
    decode Json.maxDepth (encode x) = some x

/-- The values that the formats are made of are read back.  Types and signatures are read at once
and read ahead. -/
structure FormatsRoundTrip : Prop where
  models : Json.RoundTrips Model.encode Model.decode
  packages : Json.RoundTrips Package.encode Package.decode
  symbols : Json.RoundTrips Symbol.encode Symbol.decode
  typeDefs : Json.RoundTrips TypeDef.encode TypeDef.decode
  types : ∀ ahead, Json.RoundTrips TypeExpr.encode (TypeExpr.decode ahead)
  signatures : ∀ ahead, Json.RoundTrips Signature.encode (Signature.decode ahead)
  positions : Json.RoundTrips Position.encode Position.decode
  references : Json.RoundTrips Reference.encode Reference.decode
  reports : Json.RoundTrips Report.encode Report.decode

/-- **The formats round-trip.** -/
theorem formats_roundTrip : FormatsRoundTrip where
  models _ hdepth hwords := Model.decode_encode ⟨hdepth, hwords⟩
  packages _ hdepth hwords := Package.decode_encode ⟨hdepth, hwords⟩
  symbols _ hdepth hwords := Symbol.decode_encode ⟨hdepth, hwords⟩
  typeDefs _ hdepth hwords := TypeDef.decode_encode ⟨hdepth, hwords⟩
  types ahead t hdepth hwords := t.readsBack ahead _ ⟨hdepth, hwords⟩
  signatures ahead _ hdepth hwords := Signature.decode_encode ahead ⟨hdepth, hwords⟩
  positions _ hdepth hwords := Position.decode_encode ⟨hdepth, hwords⟩
  references _ hdepth hwords := Reference.decode_encode ⟨hdepth, hwords⟩
  reports _ hdepth hwords := Report.decode_encode ⟨hdepth, hwords⟩

/-- A model with a generic alias, a method of an interface with an unnamed parameter, and a use at
the last line and column that there are. -/
def lastUse : Model where
  packages := [⟨"p", [⟨⟨"a"⟩, []⟩, ⟨⟨"b"⟩, ["x", ""]⟩],
    [⟨⟨⟨"a"⟩, Decimal.maxWord, Decimal.maxWord⟩, 0⟩], [⟨⟨"b"⟩, 1, "c"⟩]⟩]
  symbols := [⟨"f", ⟨"m"⟩, .method ⟨none, .pointer (.named 0)⟩
    { typeParams := [⟨"T", .interface [⟨"g", { params := [⟨none, .typeParam "T"⟩] }⟩]⟩]
      params := [⟨some "xs", .slice (.named 0)⟩]
      results := [⟨none, .chan .recv (.array 3 (.basic "int"))⟩]
      variadic := true }⟩, ⟨"v", ⟨""⟩, .variable⟩]
  types := [⟨⟨"m"⟩, "A", [.named 0], .alias (.struct [⟨none, .map (.named 0) (.named 0)⟩])⟩]

theorem formats_roundTrip_lastUse :
    lastUse.encode.depth = 13 ∧ lastUse.encode.HasWords ∧
      Model.decode Json.maxDepth lastUse.encode = some lastUse := by
  have hdepth : lastUse.encode.depth = 13 := by decide +kernel
  have hwords : lastUse.encode.HasWords := by
    unfold Json.HasWords
    decide +kernel
  exact ⟨hdepth, hwords, formats_roundTrip.models lastUse (hdepth ▸ by decide) hwords⟩

end CallPolicy
