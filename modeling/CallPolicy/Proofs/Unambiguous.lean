import CallPolicy.Proofs.Separation

/-!
# Canonical signatures are unambiguous

Two functions or methods with one canonical signature have one shape, so an entry of a denylist
names one function or method.  A copy of a module counts as the module it was copied from: only the
origin of a function's module is told.

## Main statements

* `Naming.symbolShape?_eq_of_canonical?_eq` — a canonical signature tells the shape.
* `Naming.canonical?_vendored` — it does not tell a function from its copy.
-/

namespace CallPolicy

open Text

namespace Naming

variable {n : Naming}

/-! ## Symbols -/

/-- The text of a function tells its origin, its name and the shape of its signature. -/
theorem functionChars_inj (hn : n.WellNamed) {origin name origin' name' : String}
    {s s' : Signature} (horigin : isOrigin origin = true) (hname : isIdentifier name = true)
    (hs : n.FitsSignature s) (horigin' : isOrigin origin' = true)
    (hname' : isIdentifier name' = true) (hs' : n.FitsSignature s')
    (h : qualifiedChars origin name ++ n.signatureChars s =
      qualifiedChars origin' name' ++ n.signatureChars s') :
    origin = origin' ∧ name = name' ∧ n.signatureShape s = n.signatureShape s' := by
  have htext : qualifiedChars origin name ++ (n.signatureChars s ++ []) =
      qualifiedChars origin' name' ++ (n.signatureChars s' ++ []) := by
    rw [List.append_nil, List.append_nil, h]
  obtain ⟨hqualified, hsignatures⟩ := run_inj
    (fun c hc => isOriginChar_of_mem_qualifiedChars horigin hname hc)
    (fun c hc => isOriginChar_of_mem_qualifiedChars horigin' hname' hc)
    (fun c hc => not_isOriginChar_head?_signatureChars hc)
    (fun c hc => not_isOriginChar_head?_signatureChars hc) htext
  obtain ⟨horigins, hnames⟩ := qualifiedChars_inj hname hname' hqualified
  obtain ⟨hshape, -⟩ := hs.separates hn s' [] [] hs' stops_nil stops_nil hsignatures
  exact ⟨horigins, hnames, hshape⟩

/-- The text of a method tells its receiver, its name and the shape of its signature. -/
theorem receiverChars_inj (hn : n.WellNamed) {t t' : TypeExpr} {name name' : String}
    {s s' : Signature} (ht : n.Fits t) (hname : isIdentifier name = true)
    (hs : n.FitsSignature s) (ht' : n.Fits t') (hname' : isIdentifier name' = true)
    (hs' : n.FitsSignature s')
    (h : n.typeChars t ++ ')' :: '.' :: n.methodChars ⟨name, s⟩ =
      n.typeChars t' ++ ')' :: '.' :: n.methodChars ⟨name', s'⟩) :
    n.shapeOf t = n.shapeOf t' ∧ name = name' ∧ n.signatureShape s = n.signatureShape s' := by
  obtain ⟨hshape, hrest⟩ :=
    separates hn ht t' _ _ ht' (stops_cons rfl _) (stops_cons rfl _) h
  injection hrest with _ hrest
  injection hrest with _ hrest
  have htext : n.methodChars ⟨name, s⟩ ++ [] = n.methodChars ⟨name', s'⟩ ++ [] := by
    rw [List.append_nil, List.append_nil, hrest]
  obtain ⟨hmethod, -⟩ := @methodChars_inj n ⟨name, s⟩ ⟨name', s'⟩ (hs.separates hn) hname hname'
    hs' [] [] stops_nil stops_nil htext
  exact ⟨hshape, congrArg Prod.fst hmethod, congrArg Prod.snd hmethod⟩

/-- A function does not begin as a method does. -/
theorem qualifiedChars_append_ne_cons {origin name : String} (horigin : isOrigin origin = true)
    (hname : isIdentifier name = true) (x y : List Char) :
    qualifiedChars origin name ++ x ≠ '(' :: y := by
  obtain ⟨c, rest, hchars, hc, -⟩ := exists_qualifiedChars_eq_cons horigin hname
  rw [hchars]
  intro h
  injection h with hcc
  rw [hcc] at hc
  cases hc

/-- **A canonical signature tells the shape of a function or method,** a function's module by its
origin. -/
theorem symbolShape?_eq_of_canonical?_eq (hn : n.WellNamed) {s s' : Symbol} (hs : n.FitsSymbol s)
    (hs' : n.FitsSymbol s') (h : n.canonical? s = n.canonical? s') :
    n.symbolShape? n.origins.origin s = n.symbolShape? n.origins.origin s' := by
  have hchars : n.symbolChars? s = n.symbolChars? s' := (n.canonical?_eq_iff s s').1 h
  have hcallable : s.isCallable = s'.isCallable := by
    rw [← isSome_canonical? n, h, isSome_canonical?]
  obtain ⟨name, module, kind⟩ := s
  obtain ⟨name', module', kind'⟩ := s'
  obtain ⟨hname, hkind⟩ := hs
  obtain ⟨hname', hkind'⟩ := hs'
  cases kind with
  | function signature =>
    cases kind' with
    | function signature' =>
      obtain ⟨horigin, rfl, hshape⟩ := functionChars_inj hn hkind.1 hname hkind.2 hkind'.1 hname'
        hkind'.2 (Option.some.inj hchars)
      show some (SymbolShape.function (n.origins.origin module) name _) = _
      rw [horigin, hshape]
      rfl
    | method receiver' signature' =>
      exact absurd (Option.some.inj hchars) (qualifiedChars_append_ne_cons hkind.1 hname _ _)
    | _ => cases hcallable
  | method receiver signature =>
    cases kind' with
    | function signature' =>
      exact absurd (Option.some.inj hchars).symm
        (qualifiedChars_append_ne_cons hkind'.1 hname' _ _)
    | method receiver' signature' =>
      have htext := Option.some.inj hchars
      injection htext with _ htext
      obtain ⟨hreceiver, rfl, hshape⟩ := receiverChars_inj hn hkind.1 hname hkind.2 hkind'.1
        hname' hkind'.2 htext
      show some (SymbolShape.method (n.shapeOf receiver.type) name _) = _
      rw [hreceiver, hshape]
      rfl
    | _ => cases hcallable
  | _ =>
    cases kind' with
    | function signature' => cases hcallable
    | method receiver' signature' => cases hcallable
    | _ => rfl

/-- A table with a copied type and a generic type that has it as argument. -/
def copiedList : Naming :=
  ⟨[⟨⟨"app/vendor/net/http"⟩, "Client", [], .defined (.struct [])⟩,
    ⟨⟨"container/list"⟩, "List", [.named 0], .defined (.slice (.named 0))⟩], .empty⟩

/-- A method on lists; its module, the names of receiver and parameters and the type sent over the
inner channel are left open. -/
def pushAll (module : ModulePath) (receiver first rest : Option String) (elem : TypeExpr) :
    Symbol :=
  ⟨"PushAll", module, .method ⟨receiver, .pointer (.named 1)⟩
    { params := [⟨first, .chan .both (.chan .recv elem)⟩, ⟨rest, .slice (.named 0)⟩]
      results := [⟨none, .basic "error"⟩]
      variadic := true }⟩

theorem symbolShape?_eq_of_canonical?_eq_pushAll :
    let first := pushAll ⟨"container/list"⟩ (some "l") none none (.basic "T")
    let second := pushAll ⟨"app"⟩ none (some "in") (some "cs") (.typeParam "T")
    copiedList.WellNamed ∧ copiedList.FitsSymbol first ∧ copiedList.FitsSymbol second ∧
      copiedList.canonical? first = copiedList.canonical? second ∧
      copiedList.symbolShape? copiedList.origins.origin first =
        copiedList.symbolShape? copiedList.origins.origin second := by
  intro first second
  have hn : copiedList.WellNamed := by
    refine ⟨?_, by decide, by decide +kernel, by decide, by decide, ?_⟩
    · simp [TypeTable.AllDefined, copiedList]
    · exact TypeTable.acyclic_of_lt (by decide)
  have hfirst : copiedList.FitsSymbol first :=
    ⟨by decide, ⟨by decide, by decide⟩, ⟨by decide, by decide⟩⟩
  have hsecond : copiedList.FitsSymbol second :=
    ⟨by decide, ⟨by decide, by decide⟩, ⟨by decide, by decide⟩⟩
  have htext : copiedList.canonical? first = copiedList.canonical? second := by decide +kernel
  exact ⟨hn, hfirst, hsecond, htext, symbolShape?_eq_of_canonical?_eq hn hfirst hsecond htext⟩

/-- The text does not tell a function from its copy, though their modules differ. -/
theorem canonical?_vendored :
    let n : Naming := ⟨[], .empty⟩
    let original : Symbol := ⟨"F", ⟨"a"⟩, .function {}⟩
    let copy : Symbol := ⟨"F", ⟨"vendor/a"⟩, .function {}⟩
    n.WellNamed ∧ n.FitsSymbol original ∧ n.FitsSymbol copy ∧
      n.canonical? original = n.canonical? copy ∧
      n.symbolShape? ModulePath.text original ≠ n.symbolShape? ModulePath.text copy := by
  intro n original copy
  have hn : n.WellNamed := by
    refine ⟨?_, by decide, by decide, by decide, by decide, ?_⟩
    · simp [TypeTable.AllDefined, n]
    · exact TypeTable.acyclic_of_lt (by decide)
  have horiginal : n.FitsSymbol original :=
    ⟨by decide, by decide +kernel, by decide, by decide⟩
  have hcopy : n.FitsSymbol copy := ⟨by decide, by decide +kernel, by decide, by decide⟩
  refine ⟨hn, horiginal, hcopy, by decide +kernel, ?_⟩
  simp [symbolShape?, original, copy]

end Naming

end CallPolicy
