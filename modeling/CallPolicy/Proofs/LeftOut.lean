import CallPolicy.Proofs.Naming

/-!
# What canonical signatures leave out

A canonical signature shows the types of parameters, results and receivers but not their names, at
any depth.  A defined type is known by its name, so its underlying type is not shown; an alias is
written as its target, so the arguments stored with it are not shown; and a method is known by its
receiver, so its module is not shown.  Everything else is: names of fields and of type parameters
look like names of parameters, but they stay.

Here all that is left out is taken away at once, and the text stays the same.  Two programs that
differ in nothing else then have the same text, whatever rings their tables hold.

## Main statements

* `TypeExpr.render_unnamed` — the names of parameters and results change no text.
* `Naming.sameEntries_shown` — neither does what is taken away from the entries of a table.
* `Naming.canonical?_eq_of_shown_eq` — symbols that show the same have the same canonical signature.
-/

namespace CallPolicy

/-! ## Without names -/

mutual

/-- The type without the names of parameters and results in it. -/
def TypeExpr.unnamed : TypeExpr → TypeExpr
  | .basic name => .basic name
  | .typeParam name => .typeParam name
  | .named id => .named id
  | .pointer elem => .pointer elem.unnamed
  | .slice elem => .slice elem.unnamed
  | .array len elem => .array len elem.unnamed
  | .map key value => .map key.unnamed value.unnamed
  | .chan dir elem => .chan dir elem.unnamed
  | .func signature => .func signature.unnamed
  | .struct fields => .struct (Binding.unnamedFields fields)
  | .interface methods => .interface (Method.unnamedAll methods)

/-- The signature without the names of parameters and results. -/
def Signature.unnamed : Signature → Signature
  | ⟨typeParams, params, results, variadic⟩ =>
    ⟨TypeParam.unnamedAll typeParams, Binding.unnamedAll params, Binding.unnamedAll results,
      variadic⟩

/-- Parameters or results without their names. -/
def Binding.unnamedAll : List Binding → List Binding
  | [] => []
  | ⟨_, type⟩ :: rest => ⟨none, type.unnamed⟩ :: Binding.unnamedAll rest

/-- Fields, which keep their names. -/
def Binding.unnamedFields : List Binding → List Binding
  | [] => []
  | ⟨name, type⟩ :: rest => ⟨name, type.unnamed⟩ :: Binding.unnamedFields rest

/-- Type parameters, which keep their names. -/
def TypeParam.unnamedAll : List TypeParam → List TypeParam
  | [] => []
  | ⟨name, constraint⟩ :: rest => ⟨name, constraint.unnamed⟩ :: TypeParam.unnamedAll rest

/-- Methods, which keep their names. -/
def Method.unnamedAll : List Method → List Method
  | [] => []
  | ⟨name, signature⟩ :: rest => ⟨name, signature.unnamed⟩ :: Method.unnamedAll rest

end

/-! ## Lists as library functions -/

theorem Binding.unnamedAll_eq (bs : List Binding) :
    Binding.unnamedAll bs = bs.map fun b => ⟨none, b.type.unnamed⟩ := by
  induction bs with
  | nil => rfl
  | cons b rest ih =>
    obtain ⟨name, type⟩ := b
    rw [Binding.unnamedAll, ih]
    rfl

theorem Binding.unnamedFields_eq (bs : List Binding) :
    Binding.unnamedFields bs = bs.map fun b => ⟨b.name, b.type.unnamed⟩ := by
  induction bs with
  | nil => rfl
  | cons b rest ih =>
    obtain ⟨name, type⟩ := b
    rw [Binding.unnamedFields, ih]
    rfl

theorem TypeParam.unnamedAll_eq (ps : List TypeParam) :
    TypeParam.unnamedAll ps = ps.map fun p => ⟨p.name, p.constraint.unnamed⟩ := by
  induction ps with
  | nil => rfl
  | cons p rest ih =>
    obtain ⟨name, constraint⟩ := p
    rw [TypeParam.unnamedAll, ih]
    rfl

theorem Method.unnamedAll_eq (ms : List Method) :
    Method.unnamedAll ms = ms.map fun m => ⟨m.name, m.signature.unnamed⟩ := by
  induction ms with
  | nil => rfl
  | cons m rest ih =>
    obtain ⟨name, signature⟩ := m
    rw [Method.unnamedAll, ih]
    rfl

theorem Signature.unnamed_eq (s : Signature) :
    s.unnamed = s.mapTypes (fun _ => none) TypeExpr.unnamed := by
  obtain ⟨typeParams, params, results, variadic⟩ := s
  rw [Signature.unnamed, TypeParam.unnamedAll_eq, Binding.unnamedAll_eq, Binding.unnamedAll_eq]
  rfl

/-! ## Texts without names -/

/-- The two shapes that a text looks at below it are the same without names. -/
theorem TypeExpr.spread_unnamed (t : TypeExpr) : t.unnamed.spread = t.spread.unnamed := by
  cases t <;> rfl

theorem ChanDir.encloses_unnamed (dir : ChanDir) (t : TypeExpr) :
    dir.encloses t.unnamed = dir.encloses t := by
  cases t with
  | chan inner elem => cases dir <;> cases inner <;> rfl
  | _ => cases dir <;> rfl

theorem Signature.render_unnamed_of_parts {refer : Nat → String} {s : Signature}
    (h : ∀ t ∈ s.parts, t.unnamed.render refer = t.render refer ∧
      t.spread.unnamed.render refer = t.spread.render refer) :
    s.unnamed.render refer = s.render refer := by
  rw [Signature.unnamed_eq]
  refine Signature.render_mapTypes ?_
  intro t ht
  rw [TypeExpr.spread_unnamed]
  exact h t ht

/-- **The names of parameters and results change no text.** -/
theorem TypeExpr.render_unnamed (refer : Nat → String) (t : TypeExpr) :
    t.unnamed.render refer = t.render refer := by
  induction t using TypeExpr.induct with
  | basic name => rfl
  | named id => rfl
  | pointer elem ih => rw [TypeExpr.unnamed, TypeExpr.render, TypeExpr.render, ih]
  | slice elem ih => rw [TypeExpr.unnamed, TypeExpr.render, TypeExpr.render, ih]
  | array len elem ih => rw [TypeExpr.unnamed, TypeExpr.render, TypeExpr.render, ih]
  | map key value ihk ihv => rw [TypeExpr.unnamed, TypeExpr.render, TypeExpr.render, ihk, ihv]
  | chan dir elem ih =>
    rw [TypeExpr.unnamed, TypeExpr.render, TypeExpr.render, ChanDir.encloses_unnamed, ih]
  | func s ih =>
    rw [TypeExpr.unnamed, TypeExpr.render, TypeExpr.render, Signature.render_unnamed_of_parts ih]
  | struct fields ih =>
    rw [TypeExpr.unnamed, TypeExpr.render, TypeExpr.render, Binding.unnamedFields_eq,
      Binding.fieldTexts_eq, Binding.fieldTexts_eq, List.map_map]
    refine congrArg (fun texts => "struct\x7b" ++ "; ".intercalate texts ++ "\x7d")
      (List.map_congr_left ?_)
    intro b hb
    exact congrArg (Binding.fieldText b.name) (ih b hb)
  | interface methods ih =>
    rw [TypeExpr.unnamed, TypeExpr.render, TypeExpr.render, Method.unnamedAll_eq,
      Method.texts_eq, Method.texts_eq, List.map_map]
    refine congrArg (fun texts => "interface\x7b" ++ "; ".intercalate texts ++ "\x7d")
      (List.map_congr_left ?_)
    intro m hm
    exact congrArg (m.name ++ ·) (Signature.render_unnamed_of_parts (ih m hm))
  | typeParam name => rfl

theorem Signature.render_unnamed (refer : Nat → String) (s : Signature) :
    s.unnamed.render refer = s.render refer :=
  Signature.render_unnamed_of_parts fun t _ =>
    ⟨t.render_unnamed refer, t.spread.render_unnamed refer⟩

/-! ## What entries and symbols show -/

/-- The entry without what no text shows: names of parameters and results, the underlying type of a
defined type, and the arguments of an alias. -/
def TypeDef.shown (d : TypeDef) : TypeDef :=
  match d.kind with
  | .defined _ => { d with args := d.args.map TypeExpr.unnamed, kind := .defined (.basic "") }
  | .alias target => { d with args := [], kind := .alias target.unnamed }

/-- The symbol without what no canonical signature shows: names of parameters, results and
receivers, and the module of a method. -/
def Symbol.shown (s : Symbol) : Symbol :=
  match s.kind with
  | .function signature => { s with kind := .function signature.unnamed }
  | .method receiver signature =>
    ⟨s.name, ⟨""⟩, .method ⟨none, receiver.type.unnamed⟩ signature.unnamed⟩
  | .variable | .constant | .typeName => s

namespace Naming

/-- An entry looks like what is left of it. -/
theorem sameEntry_shown (types types' : TypeTable) (origins : OriginMap) (d : TypeDef) :
    SameEntry ⟨types, origins⟩ ⟨types', origins⟩ d d.shown := by
  obtain ⟨module, name, args, kind⟩ := d
  cases kind with
  | defined underlying =>
    refine ⟨fun inner => ?_, rfl⟩
    have hargs : (args.map TypeExpr.unnamed).map (fun arg => arg.render inner) =
        args.map fun arg => arg.render inner := by
      rw [List.map_map]
      exact List.map_congr_left fun arg _ => arg.render_unnamed inner
    show _ ++ Signature.typeParamsText ((args.map TypeExpr.unnamed).map _) = _
    rw [hargs]
    rfl
  | «alias» target => exact ⟨fun inner => target.render_unnamed inner, rfl⟩

/-- The entries of a table look like what is left of them. -/
theorem sameEntries_shown (types : TypeTable) (origins : OriginMap) :
    SameEntries ⟨types, origins⟩ ⟨types.map TypeDef.shown, origins⟩ := by
  unfold SameEntries
  rw [List.forall₂_map_right_iff, List.forall₂_same]
  exact fun d _ => sameEntry_shown _ _ origins d

/-- The canonical signature is that of what the table and the symbol show. -/
theorem canonical?_shown (types : TypeTable) (origins : OriginMap) (s : Symbol) :
    canonical? ⟨types.map TypeDef.shown, origins⟩ s.shown = canonical? ⟨types, origins⟩ s := by
  have htypes := sameEntries_shown types origins
  obtain ⟨name, module, kind⟩ := s
  cases kind with
  | function signature =>
    show some (_ ++ signatureText _ signature.unnamed) = _
    rw [htypes.signatureText, signatureText, signature.render_unnamed]
    rfl
  | method receiver signature =>
    show some (_ ++ typeText _ receiver.type.unnamed ++ _ ++ _ ++
      signatureText _ signature.unnamed) = _
    rw [htypes.typeText, htypes.signatureText, typeText, signatureText,
      receiver.type.render_unnamed, signature.render_unnamed]
    rfl
  | «variable» => rfl
  | constant => rfl
  | typeName => rfl

/-- **Callable symbols that show the same, over tables that show the same, have the same canonical
signature.** -/
theorem canonical?_eq_of_shown_eq {types types' : TypeTable} (origins : OriginMap) {s s' : Symbol}
    (hcallable : s.isCallable = true)
    (htypes : types'.map TypeDef.shown = types.map TypeDef.shown) (hs : s'.shown = s.shown) :
    ∃ text, canonical? ⟨types, origins⟩ s = some text ∧
      canonical? ⟨types', origins⟩ s' = some text := by
  have hsame : canonical? ⟨types', origins⟩ s' = canonical? ⟨types, origins⟩ s := by
    rw [← canonical?_shown types', ← canonical?_shown types, htypes, hs]
  rw [← isSome_canonical? ⟨types, origins⟩] at hcallable
  obtain ⟨text, htext⟩ := Option.isSome_iff_exists.1 hcallable
  exact ⟨text, htext, hsame.trans htext⟩

/-- A ring of an alias and a generic type.  The names of the parameter and the result of the
function type, the argument of the alias and the underlying type are open. -/
def shownRing (param result : Option String) (arg underlying : TypeExpr) : TypeTable :=
  [⟨⟨"m"⟩, "A", [arg],
      .alias (.func { params := [⟨param, .named 1⟩], results := [⟨result, .named 0⟩] })⟩,
    ⟨⟨"m"⟩, "G", [.struct [⟨some "f", .named 0⟩]], .defined underlying⟩]

/-- A method of the ring's generic type. -/
def ringMethod (module : ModulePath) (receiver param : Option String) : Symbol :=
  ⟨"M", module, .method ⟨receiver, .pointer (.named 1)⟩
    { typeParams := [⟨"T", .interface [⟨"g", { params := [⟨param, .named 0⟩] }⟩]⟩]
      params := [⟨param, .slice (.named 0)⟩]
      variadic := true }⟩

theorem canonical?_eq_of_shown_eq_ring :
    (ringMethod ⟨"m"⟩ (some "r") none).isCallable = true ∧
      (shownRing (some "x") none (.named 7) (.named 1)).map TypeDef.shown =
        (shownRing none (some "y") (.basic "int") (.struct [])).map TypeDef.shown ∧
      (ringMethod ⟨"n"⟩ none (some "z")).shown = (ringMethod ⟨"m"⟩ (some "r") none).shown ∧
      ∃ text,
        canonical? ⟨shownRing none (some "y") (.basic "int") (.struct []), .empty⟩
          (ringMethod ⟨"m"⟩ (some "r") none) = some text ∧
        canonical? ⟨shownRing (some "x") none (.named 7) (.named 1), .empty⟩
          (ringMethod ⟨"n"⟩ none (some "z")) = some text :=
  ⟨rfl, rfl, rfl, canonical?_eq_of_shown_eq .empty rfl rfl rfl⟩

end Naming

end CallPolicy
