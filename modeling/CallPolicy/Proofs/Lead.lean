import CallPolicy.Proofs.Delimited
import CallPolicy.Proofs.WellNamed

/-!
# Reading the beginning of a type

The first characters of a well-named type tell which constructor it is.  A word comes first in many
types; it is a keyword or a qualified name, and it ends where the characters of an origin end.

## Main statements

* `read_typeChars` — the first characters tell the kind of a type.
* `exists_typeChars_eq_cons` — a type begins with a character that nothing else in a list begins
  with.
-/

namespace CallPolicy

open Text

namespace Naming

variable {n : Naming}

/-! ## Types that are written as a name -/

/-- The type is written as a name after an origin, with arguments. -/
structure WrittenAs (n : Naming) (t : TypeExpr) (origin name : String) (args : List TypeExpr) :
    Prop where
  chars : n.typeChars t = qualifiedChars origin name ++ bracketed (args.map n.typeChars)
  shape : n.shapeOf t = .name origin name (args.map n.shapeOf)
  isOrigin : isOrigin origin = true
  isIdentifier : isIdentifier name = true
  fits : ∀ arg ∈ args, n.Fits arg

theorem WrittenAs.basic {name : String} (h : n.Fits (.basic name)) :
    n.WrittenAs (.basic name) "" name [] := by
  refine ⟨?_, ?_, rfl, h.wellNamed, fun _ harg => absurd harg List.not_mem_nil⟩
  · simp [typeChars, typeText, TypeExpr.render, qualifiedChars, bracketed]
  · rw [shapeOf, TypeExpr.erase]
    rfl

theorem WrittenAs.typeParam {name : String} (h : n.Fits (.typeParam name)) :
    n.WrittenAs (.typeParam name) "" name [] := by
  refine ⟨?_, ?_, rfl, h.wellNamed, fun _ harg => absurd harg List.not_mem_nil⟩
  · simp [typeChars, typeText, TypeExpr.render, qualifiedChars, bracketed]
  · rw [shapeOf, TypeExpr.erase]
    rfl

theorem WrittenAs.named (hn : n.WellNamed) {id : Nat} {d : TypeDef} (hd : n.types[id]? = some d) :
    n.WrittenAs (.named id) (n.origins.origin d.module) d.name d.args := by
  have hmem : d ∈ n.types := List.mem_of_getElem? hd
  refine ⟨?_, shapeOf_named hn.defined hn.acyclic hd, hn.origins d hmem, hn.names d hmem,
    fun arg harg => hn.fits_arg hmem harg⟩
  rw [typeChars, typeText_named hn.defined hn.acyclic hd, String.toList_append, toList_qualified,
    toList_typeParamsText, List.map_map]
  rfl

/-- The number of a type that fits is in the table. -/
theorem Fits.exists_entry {id : Nat} (h : n.Fits (.named id)) : ∃ d, n.types[id]? = some d :=
  ⟨_, List.getElem?_eq_getElem (h.inTable id (List.mem_singleton_self id))⟩

/-! ## What the first characters tell -/

end Naming

/-- The kinds of types that their first characters tell apart. -/
inductive Lead where
  | name
  | pointer
  | slice
  | array
  | map
  | chan (dir : ChanDir)
  | func
  | struct
  | interface

namespace Lead

/-- The kind of a type that begins with the word and goes on with the rest. -/
def ofWord (word rest : List Char) : Lead :=
  if word = [] then
    match rest with
    | '*' :: _ => .pointer
    | '<' :: _ => .chan .recv
    | '[' :: ']' :: _ => .slice
    | _ => .array
  else if word = "map".toList then .map
  else if word = "func".toList then .func
  else if word = "struct".toList then .struct
  else if word = "interface".toList then .interface
  else if word = "chan".toList then
    if rest.head? = some '<' then .chan .send else .chan .both
  else .name

/-- The kind of a type, read from its text. -/
def read (text : List Char) : Lead :=
  ofWord (text.takeWhile isOriginChar) (text.dropWhile isOriginChar)

theorem read_append {word rest : List Char} (hword : ∀ c ∈ word, isOriginChar c = true)
    (hrest : ∀ c, rest.head? = some c → isOriginChar c = false) :
    read (word ++ rest) = ofWord word rest := by
  obtain ⟨htake, hdrop⟩ := span_run hword hrest
  rw [read, htake, hdrop]

/-- A qualified name is read as a name. -/
theorem ofWord_qualifiedChars {origin name : String} (horigin : isOrigin origin = true)
    (hname : isIdentifier name = true) (rest : List Char) :
    ofWord (qualifiedChars origin name) rest = .name := by
  have hne : qualifiedChars origin name ≠ [] := by
    obtain ⟨c, rest, hchars, -⟩ := exists_qualifiedChars_eq_cons horigin hname
    rw [hchars]
    exact List.cons_ne_nil c rest
  have hword : ∀ word ∈ keywords, qualifiedChars origin name ≠ word.toList := fun word hw =>
    not_keyword_qualifiedChars hname hw
  unfold ofWord
  rw [if_neg hne, if_neg (hword "map" (by decide)), if_neg (hword "func" (by decide)),
    if_neg (hword "struct" (by decide)), if_neg (hword "interface" (by decide)),
    if_neg (hword "chan" (by decide))]

end Lead

/-- The kind of a type. -/
def TypeExpr.lead : TypeExpr → Lead
  | .basic _ | .typeParam _ | .named _ => .name
  | .pointer _ => .pointer
  | .slice _ => .slice
  | .array _ _ => .array
  | .map _ _ => .map
  | .chan dir _ => .chan dir
  | .func _ => .func
  | .struct _ => .struct
  | .interface _ => .interface

/-- No stop stands in an origin. -/
theorem not_isOriginChar_of_isStop {c : Char} (h : isStop c = true) : isOriginChar c = false := by
  simp only [isStop, Bool.or_eq_true, beq_iff_eq] at h
  rcases h with (((rfl | rfl) | rfl) | rfl) | rfl <;> rfl

namespace Naming

variable {n : Naming}

/-- After a name comes a bracket or what follows the type. -/
theorem not_isOriginChar_head?_bracketed {texts : List (List Char)} {r : List Char} (hr : Stops r)
    {c : Char} (h : (bracketed texts ++ r).head? = some c) : isOriginChar c = false := by
  rcases head?_bracketed_append h with rfl | hc
  · rfl
  · exact not_isOriginChar_of_isStop (hr c hc)

theorem WrittenAs.read {t : TypeExpr} {origin name : String} {args : List TypeExpr}
    (h : n.WrittenAs t origin name args) {r : List Char} (hr : Stops r) :
    Lead.read (n.typeChars t ++ r) = .name := by
  rw [h.chars, List.append_assoc, Lead.read_append]
  · exact Lead.ofWord_qualifiedChars h.isOrigin h.isIdentifier _
  · exact fun c hc => isOriginChar_of_mem_qualifiedChars h.isOrigin h.isIdentifier hc
  · exact fun c hc => not_isOriginChar_head?_bracketed hr hc

/-- **The first characters tell the kind of a type.** -/
theorem read_typeChars (hn : n.WellNamed) {t : TypeExpr} (ht : n.Fits t) {r : List Char}
    (hr : Stops r) : Lead.read (n.typeChars t ++ r) = t.lead := by
  cases t with
  | basic name => exact (WrittenAs.basic ht).read hr
  | typeParam name => exact (WrittenAs.typeParam ht).read hr
  | named id =>
    obtain ⟨d, hd⟩ := ht.exists_entry
    exact (WrittenAs.named hn hd).read hr
  | pointer elem => rw [typeChars_pointer]; rfl
  | slice elem => rw [typeChars_slice]; rfl
  | array len elem =>
    rw [typeChars_array]
    -- the length has a digit, so the bracket is not closed at once
    obtain ⟨c, digits, hdigits⟩ := List.exists_cons_of_ne_nil (Nat.toDigits_ne_nil (n := len))
    have hc : c.isDigit = true := by
      refine Nat.isDigit_of_mem_toDigits (b := 10) (n := len) (by decide) (by decide) ?_
      rw [hdigits]
      exact List.mem_cons_self
    have hne : c ≠ ']' := by
      rintro rfl
      cases hc
    rw [hdigits]
    show Lead.ofWord [] ('[' :: c :: _) = _
    simp [Lead.ofWord, hne, TypeExpr.lead]
  | map key value => rw [typeChars_map]; rfl
  | chan dir elem =>
    rw [typeChars_chan]
    cases dir <;> rfl
  | func s =>
    rw [typeChars_func]
    obtain ⟨c, rest, hs, hc⟩ := n.exists_signatureChars_eq_cons s
    rw [hs]
    rcases hc with rfl | rfl <;> rfl
  | struct fields => rw [typeChars_struct]; rfl
  | interface methods => rw [typeChars_interface]; rfl

/-! ## The first character -/

end Naming

/-- The character begins a type. -/
def isTypeStart (c : Char) : Bool :=
  (isOriginChar c && c != '.') || c == '*' || c == '[' || c == '<'

/-- No stop begins a type. -/
theorem not_isStop_of_isTypeStart {c : Char} (h : isTypeStart c = true) : isStop c = false := by
  cases hstop : isStop c with
  | false => rfl
  | true =>
    simp only [isStop, Bool.or_eq_true, beq_iff_eq] at hstop
    rcases hstop with (((rfl | rfl) | rfl) | rfl) | rfl <;> cases h

namespace Naming

variable {n : Naming}

theorem WrittenAs.exists_typeChars_eq_cons {t : TypeExpr} {origin name : String}
    {args : List TypeExpr} (h : n.WrittenAs t origin name args) :
    ∃ c rest, n.typeChars t = c :: rest ∧ isTypeStart c = true := by
  obtain ⟨c, rest, hchars, hc, hdot⟩ := exists_qualifiedChars_eq_cons h.isOrigin h.isIdentifier
  refine ⟨c, rest ++ bracketed (args.map n.typeChars), by rw [h.chars, hchars]; rfl, ?_⟩
  simp [isTypeStart, hc, hdot]

/-- A type begins with a character that nothing else in a list begins with. -/
theorem exists_typeChars_eq_cons (hn : n.WellNamed) {t : TypeExpr} (ht : n.Fits t) :
    ∃ c rest, n.typeChars t = c :: rest ∧ isTypeStart c = true := by
  cases t with
  | basic name => exact (WrittenAs.basic ht).exists_typeChars_eq_cons
  | typeParam name => exact (WrittenAs.typeParam ht).exists_typeChars_eq_cons
  | named id =>
    obtain ⟨d, hd⟩ := ht.exists_entry
    exact (WrittenAs.named hn hd).exists_typeChars_eq_cons
  | pointer elem => exact ⟨_, _, n.typeChars_pointer elem, rfl⟩
  | slice elem => exact ⟨_, _, n.typeChars_slice elem, rfl⟩
  | array len elem => exact ⟨_, _, n.typeChars_array len elem, rfl⟩
  | map key value => exact ⟨_, _, n.typeChars_map key value, rfl⟩
  | chan dir elem =>
    rw [typeChars_chan]
    cases dir <;> exact ⟨_, _, rfl, rfl⟩
  | func s => exact ⟨_, _, n.typeChars_func s, rfl⟩
  | struct fields => exact ⟨_, _, n.typeChars_struct fields, rfl⟩
  | interface methods => exact ⟨_, _, n.typeChars_interface methods, rfl⟩

/-- Some type begins the text, so it is no stop that does. -/
theorem opens_typeChars (hn : n.WellNamed) {t : TypeExpr} (ht : n.Fits t) :
    Opens (n.typeChars t) := by
  obtain ⟨c, rest, hchars, hc⟩ := exists_typeChars_eq_cons hn ht
  exact ⟨c, rest, hchars, not_isStop_of_isTypeStart hc⟩

/-- A character that begins no type does not begin this one. -/
theorem typeChars_append_ne_cons (hn : n.WellNamed) {t : TypeExpr} (ht : n.Fits t) {c : Char}
    (hc : isTypeStart c = false) (r text : List Char) : n.typeChars t ++ r ≠ c :: text := by
  obtain ⟨d, rest, hchars, hd⟩ := exists_typeChars_eq_cons hn ht
  rw [hchars]
  intro h
  injection h with hdc
  rw [hdc, hc] at hd
  cases hd

end Naming

end CallPolicy
