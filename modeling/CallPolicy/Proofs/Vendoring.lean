import CallPolicy.Proofs.Naming

/-!
# Copies under a vendor directory

A module may be copied into a `vendor` directory, at the top or anywhere below, and a copy may be
copied again.  The origin of a path is what follows its last `vendor` segment, so putting such a
segment in front of a path changes no origin, whatever the path is: a mark `/vendor/` that is put
there can only overlap with a `vendor/` at the start of the path, which is then the one that counts.
Canonical signatures name modules by their origins, and therefore do not tell a copy from what it is
a copy of.

## Main statements

* `ModulePath.IsCopy.origin_eq` — a copy has the origin of what it is a copy of.
* `Naming.canonical?_of_isCopy` — copies in a symbol and in the type table change no canonical
  signature.
-/

namespace CallPolicy

/-! ## The last mark in a text -/

namespace Text

/-- After a mark stands what was put there. -/
theorem after?_append (mark text : List Char) : after? mark (mark ++ text) = some text :=
  after?_eq_some_iff.2 rfl

/-- What follows the last mark is found whatever stands before. -/
theorem afterLast?_append {mark text rest : List Char} (before : List Char)
    (h : afterLast? mark text = some rest) : afterLast? mark (before ++ text) = some rest := by
  induction before with
  | nil => exact h
  | cons c before ih => rw [List.cons_append, afterLast?, ih, Option.some_or]

/-- No mark begins where its first character is missing. -/
theorem afterLast?_append_of_not_mem {m : Char} {mark before : List Char} (text : List Char)
    (h : m ∉ before) : afterLast? (m :: mark) (before ++ text) = afterLast? (m :: mark) text := by
  induction before with
  | nil => rfl
  | cons c before ih =>
    rw [List.mem_cons, not_or] at h
    have hafter : after? (m :: mark) (c :: (before ++ text)) = none := by
      rw [after?, if_neg h.1]
    rw [List.cons_append, afterLast?, ih h.2, hafter, Option.or_none]

/-- A mark at the start counts unless another one stands further right. -/
theorem afterLast?_cons_self (m : Char) (mark text : List Char) :
    afterLast? (m :: mark) (m :: text) =
      (afterLast? (m :: mark) text).or (after? mark text) := by
  rw [afterLast?, after?, if_pos rfl]

end Text

/-! ## Origins -/

namespace ModulePath

/-- The last `vendor` segment begins with a slash, or it is the first segment of the path. -/
theorem originChars_eq (path : List Char) :
    originChars path =
      ((Text.afterLast? "/vendor/".toList path).or (Text.after? "vendor/".toList path)).getD
        path := by
  unfold originChars
  cases Text.afterLast? "/vendor/".toList path <;> rfl

/-- The slash after a leading `vendor` may begin the last `/vendor/`. -/
theorem afterLast?_vendor_append (path : List Char) :
    Text.afterLast? "/vendor/".toList ("vendor/".toList ++ path) =
      (Text.afterLast? "/vendor/".toList path).or (Text.after? "vendor/".toList path) := by
  have hsplit : "vendor/".toList ++ path = "vendor".toList ++ ('/' :: path) := rfl
  have hslash : '/' ∉ "vendor".toList := by decide
  rw [hsplit]
  exact (Text.afterLast?_append_of_not_mem _ hslash).trans
    (Text.afterLast?_cons_self '/' "vendor/".toList path)

/-- A leading `vendor/` changes no origin. -/
theorem originChars_vendor_append (path : List Char) :
    originChars ("vendor/".toList ++ path) = originChars path := by
  rw [originChars_eq, originChars_eq, afterLast?_vendor_append,
    Text.after?_append]
  cases (Text.afterLast? "/vendor/".toList path).or (Text.after? "vendor/".toList path) <;> rfl

/-- Neither does a `/vendor/` after any directory. -/
theorem originChars_append_vendor_append (dir path : List Char) :
    originChars (dir ++ ("/vendor/".toList ++ path)) = originChars path := by
  -- the mark that was put there counts unless one of the path does
  have hlast : Text.afterLast? "/vendor/".toList ("/vendor/".toList ++ path) =
      some (originChars path) := by
    have hsplit : "/vendor/".toList ++ path = '/' :: ("vendor/".toList ++ path) := rfl
    rw [hsplit, originChars_eq]
    refine (Text.afterLast?_cons_self '/' "vendor/".toList _).trans ?_
    show (Text.afterLast? "/vendor/".toList _).or _ = _
    rw [afterLast?_vendor_append, Text.after?_append]
    cases (Text.afterLast? "/vendor/".toList path).or (Text.after? "vendor/".toList path) <;> rfl
  rw [originChars, Text.afterLast?_append dir hlast]

/-- The second path is the first one, or that of a copy of it in a `vendor` directory. -/
inductive IsCopy (path : ModulePath) : ModulePath → Prop where
  | self : IsCopy path path
  /-- The `vendor` directory is at the top. -/
  | top : IsCopy path ⟨"vendor/" ++ path.text⟩
  /-- The `vendor` directory stands below another one. -/
  | below (dir : String) : IsCopy path ⟨dir ++ "/vendor/" ++ path.text⟩

/-- **A copy has the origin of what it is a copy of.** -/
theorem IsCopy.origin_eq {path copy : ModulePath} (h : path.IsCopy copy) :
    copy.origin = path.origin := by
  unfold origin
  cases h with
  | self => rfl
  | top =>
    show String.ofList (originChars ("vendor/" ++ path.text).toList) = _
    rw [String.toList_append, originChars_vendor_append]
  | below dir =>
    show String.ofList (originChars (dir ++ "/vendor/" ++ path.text).toList) = _
    rw [String.toList_append, String.toList_append, List.append_assoc,
      originChars_append_vendor_append]

end ModulePath

/-- Rules look at the origin of a path only. -/
theorem OriginMap.origin_congr (m : OriginMap) {path path' : ModulePath}
    (h : path'.origin = path.origin) : m.origin path' = m.origin path := by
  unfold OriginMap.origin
  rw [h]

/-! ## Canonical signatures -/

/-- The second entry is the first one, or the same entry of a copy of its module. -/
def TypeDef.IsCopy (d copy : TypeDef) : Prop :=
  ∃ module, d.module.IsCopy module ∧ copy = { d with module }

/-- The second symbol is the first one, or the same symbol of a copy of its module. -/
def Symbol.IsCopy (s copy : Symbol) : Prop :=
  ∃ module, s.module.IsCopy module ∧ copy = { s with module }

namespace Naming

variable {types types' : TypeTable}

/-- A name is qualified alike in a module and in a copy of it. -/
theorem qualified_of_isCopy (types types' : TypeTable) (origins : OriginMap)
    {path copy : ModulePath} (h : path.IsCopy copy) (name : String) :
    qualified ⟨types', origins⟩ copy name = qualified ⟨types, origins⟩ path name := by
  unfold qualified
  rw [origins.origin_congr h.origin_eq]

/-- Entries of copies look like what they are copies of. -/
theorem sameEntry_of_isCopy (types types' : TypeTable) (origins : OriginMap) {d copy : TypeDef}
    (h : d.IsCopy copy) : SameEntry ⟨types, origins⟩ ⟨types', origins⟩ d copy := by
  obtain ⟨module, hmodule, rfl⟩ := h
  have hqualified := qualified_of_isCopy types types' origins hmodule d.name
  constructor
  · intro inner
    unfold entryText
    rw [hqualified]
  · unfold backReference
    rw [hqualified]

/-- **Copies in a symbol and in the type table change no canonical signature.** -/
theorem canonical?_of_isCopy (origins : OriginMap)
    (htypes : List.Forall₂ TypeDef.IsCopy types types') {s copy : Symbol} (hs : s.IsCopy copy) :
    canonical? ⟨types', origins⟩ copy = canonical? ⟨types, origins⟩ s := by
  have hsame : SameEntries ⟨types, origins⟩ ⟨types', origins⟩ :=
    htypes.imp fun _ _ hd => sameEntry_of_isCopy types types' origins hd
  obtain ⟨module, hmodule, rfl⟩ := hs
  unfold canonical?
  rw [qualified_of_isCopy types types' origins hmodule]
  simp only [hsame.typeText, hsame.signatureText]

/-- A ring of an alias and a generic type in two modules. -/
def ringIn (first second : ModulePath) : TypeTable :=
  [⟨first, "A", [], .alias (.pointer (.named 1))⟩,
    ⟨second, "G", [.named 0], .defined (.struct [])⟩]

/-- A function of the given module that takes the ring's alias. -/
def takesRing (module : ModulePath) : Symbol :=
  ⟨"f", module, .function { params := [⟨none, .named 0⟩] }⟩

theorem canonical?_of_isCopy_ring :
    List.Forall₂ TypeDef.IsCopy (ringIn ⟨"vendor/a"⟩ ⟨"b/vendor/c"⟩)
        (ringIn ⟨"x/vendor/vendor/a"⟩ ⟨"vendor/b/vendor/c"⟩) ∧
      (takesRing ⟨""⟩).IsCopy (takesRing ⟨"/vendor/"⟩) ∧
      canonical? ⟨ringIn ⟨"x/vendor/vendor/a"⟩ ⟨"vendor/b/vendor/c"⟩, .empty⟩
          (takesRing ⟨"/vendor/"⟩) =
        canonical? ⟨ringIn ⟨"vendor/a"⟩ ⟨"b/vendor/c"⟩, .empty⟩ (takesRing ⟨""⟩) := by
  have hfirst : ModulePath.IsCopy ⟨"vendor/a"⟩ ⟨"x/vendor/vendor/a"⟩ := .below "x"
  have hsecond : ModulePath.IsCopy ⟨"b/vendor/c"⟩ ⟨"vendor/b/vendor/c"⟩ := .top
  have hempty : ModulePath.IsCopy ⟨""⟩ ⟨"/vendor/"⟩ := .below ""
  have htypes : List.Forall₂ TypeDef.IsCopy (ringIn ⟨"vendor/a"⟩ ⟨"b/vendor/c"⟩)
      (ringIn ⟨"x/vendor/vendor/a"⟩ ⟨"vendor/b/vendor/c"⟩) :=
    .cons ⟨_, hfirst, rfl⟩ (.cons ⟨_, hsecond, rfl⟩ .nil)
  have hs : (takesRing ⟨""⟩).IsCopy (takesRing ⟨"/vendor/"⟩) := ⟨_, hempty, rfl⟩
  exact ⟨htypes, hs, canonical?_of_isCopy .empty htypes hs⟩

end Naming

end CallPolicy
