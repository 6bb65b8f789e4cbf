import CallPolicy.Proofs.References

/-!
# Going through the occurrences of a package

The references of a package can be found in one pass over its occurrences that keeps two maps: the
signatures that were worked out, by the number of the symbol, and the signatures that were found, by
position.  A signature that is kept is the one that would be worked out again, and only a call puts
its signature over the one that stands at its position.  So the pass finds what `references` lists,
and nothing but the calls at each position, in their order, counts.

## Main statements

* `CallScan.Holds.visit`, `CallScan.Holds.foldl` — what one occurrence, and a sequence of them,
  makes of the two maps.
* `CallScan.references_run` — the pass finds the references of the package.
* `Model.isLastCall_iff`, `Model.references_congr` — the calls at each position tell the references.
* `Model.references_listLastCalls` — the references are those of the last calls, and occurrences of
  other symbols and the order of calls at different positions make no difference.
-/

namespace CallPolicy

namespace OrderedMap

variable {κ α : Type} [Ord κ] [Std.LawfulEqOrd κ] [Std.TransOrd κ]

/-- An insertion goes past one that keeps what is there. -/
theorem insertNew_insert (m : OrderedMap κ α) (k k' : κ) (v v' : α) :
    (m.insert k' v').insertNew k v = (m.insertNew k v).insert k' v' := by
  refine eq_of_get?_eq fun key => ?_
  simp only [get?_insert, get?_insertNew, Std.LawfulEqOrd.compare_eq_iff_eq]
  grind

/-- The last binding is inserted last. -/
theorem ofList_concat (bindings : List (κ × α)) (b : κ × α) :
    ofList (bindings ++ [b]) = (ofList bindings).insert b.1 b.2 := by
  induction bindings with
  | nil => rfl
  | cons c rest ih =>
    show (ofList (rest ++ [b])).insertNew c.1 c.2 = _
    rw [ih, insertNew_insert]
    rfl

end OrderedMap

/-! ## The pass -/

/-- What is kept after some of the occurrences of a package. -/
structure CallScan where
  /-- The signatures that were worked out, by the number of the symbol; none for what is missing or
  is not called. -/
  known : OrderedMap Nat (Option String)
  /-- The signatures of calls, by position. -/
  found : OrderedMap Position String

namespace CallScan

/-- Before the first occurrence. -/
def start : CallScan := ⟨.empty, .empty⟩

/-- The signature behind an occurrence: the one that is known, or else the one worked out. -/
def signature? (m : Model) (origins : OriginMap) (scan : CallScan) (use : Occurrence) :
    Option String :=
  (scan.known.get? use.symbol).getD (m.signatureAt? origins use)

/-- After one more occurrence. -/
def visit (m : Model) (origins : OriginMap) (scan : CallScan) (use : Occurrence) : CallScan where
  known := scan.known.insertNew use.symbol (m.signatureAt? origins use)
  found :=
    match scan.signature? m origins use with
    | some signature => scan.found.insert use.position signature
    | none => scan.found

/-- After all of the occurrences. -/
def run (m : Model) (origins : OriginMap) (uses : List Occurrence) : CallScan :=
  uses.foldl (visit m origins) start

/-- The references that were found, in the order of their positions. -/
def references (scan : CallScan) : List Reference :=
  scan.found.entries.map fun e => ⟨e.1, e.2⟩

/-- What the two maps hold after the given occurrences. -/
structure Holds (m : Model) (origins : OriginMap) (seen : List Occurrence) (scan : CallScan) :
    Prop where
  /-- What is known would be worked out again. -/
  known : ∀ symbol signature, scan.known.get? symbol = some signature →
    (m.symbols[symbol]?).bind (Naming.canonical? ⟨m.types, origins⟩) = signature
  /-- The signatures found are those of the calls seen. -/
  found : scan.found = .ofList (seen.filterMap fun use =>
    (m.signatureAt? origins use).map fun signature => (use.position, signature))

section

variable {m : Model} {origins : OriginMap} {seen : List Occurrence} {scan : CallScan}

theorem holds_start : Holds m origins [] start where
  known symbol signature h := by cases h
  found := rfl

/-- A signature that is known is the one that would be worked out. -/
theorem Holds.signature?_eq (h : Holds m origins seen scan) (use : Occurrence) :
    scan.signature? m origins use = m.signatureAt? origins use := by
  unfold signature?
  cases hknown : scan.known.get? use.symbol with
  | none => rfl
  | some signature => exact (h.known use.symbol signature hknown).symm

/-- One more occurrence. -/
theorem Holds.visit (h : Holds m origins seen scan) (use : Occurrence) :
    Holds m origins (seen ++ [use]) (scan.visit m origins use) where
  known symbol signature hget := by
    rw [CallScan.visit, OrderedMap.get?_insertNew] at hget
    split at hget
    next hsymbol =>
      have hsymbol : symbol = use.symbol := Std.LawfulEqOrd.eq_of_compare hsymbol
      subst hsymbol
      -- the symbol was known before, or it is the one just worked out
      have hsame : scan.signature? m origins use = signature := Option.some.inj hget
      rw [← hsame, h.signature?_eq]
      rfl
    next => exact h.known symbol signature hget
  found := by
    rw [CallScan.visit, h.signature?_eq, List.filterMap_append]
    cases hsignature : m.signatureAt? origins use with
    | none => simp [hsignature, h.found]
    | some signature => simp [hsignature, h.found, OrderedMap.ofList_concat]

/-- A sequence of occurrences. -/
theorem Holds.foldl (h : Holds m origins seen scan) (uses : List Occurrence) :
    Holds m origins (seen ++ uses) (uses.foldl (CallScan.visit m origins) scan) := by
  induction uses generalizing seen scan with
  | nil => rwa [List.append_nil]
  | cons use uses ih =>
    rw [List.foldl_cons, List.append_cons]
    exact ih (h.visit use)

end

/-- **The pass finds the references of the package,** as if nothing were kept. -/
theorem references_run (m : Model) (origins : OriginMap) (p : Package) :
    (run m origins p.uses).references = m.references origins p := by
  have hfound : (run m origins p.uses).found = m.referenceMap origins p := by
    rw [Model.referenceMap_eq]
    exact (holds_start.foldl p.uses).found
  rw [references, hfound, Model.references]

end CallScan

/-! ## What counts -/

/-- The last element of a list that passes a test. -/
theorem getLast?_filter_eq_some_iff {α : Type} {test : α → Bool} {xs : List α} {x : α} :
    (xs.filter test).getLast? = some x ↔
      ∃ before after, xs = before ++ x :: after ∧ test x = true ∧
        ∀ later ∈ after, test later = false := by
  rw [List.getLast?_eq_some_iff]
  constructor
  · rintro ⟨front, hfilter⟩
    obtain ⟨xs₁, xs₂, rfl, -, hlast⟩ := List.filter_eq_append_iff.1 hfilter
    obtain ⟨skipped, after, rfl, -, hx, hafter⟩ := List.filter_eq_cons_iff.1 hlast
    refine ⟨xs₁ ++ skipped, after, (List.append_assoc _ _ _).symm, hx, ?_⟩
    simpa using hafter
  · rintro ⟨before, after, rfl, hx, hafter⟩
    have hnil : after.filter test = [] := by simpa using hafter
    exact ⟨before.filter test, by rw [List.filter_append, List.filter_cons_of_pos hx, hnil]⟩

namespace Model

variable (m : Model) (origins : OriginMap)

/-- The calls at the position, in their order. -/
def callsAt (position : Position) (uses : List Occurrence) : List Occurrence :=
  uses.filter fun use => m.isCall use && decide (use.position = position)

theorem isLastCall_iff (p : Package) (position : Position) (use : Occurrence) :
    m.IsLastCall p position use ↔ (m.callsAt position p.uses).getLast? = some use := by
  rw [callsAt, getLast?_filter_eq_some_iff, IsLastCall]
  simp only [Bool.and_eq_true, decide_eq_true_eq, Bool.and_eq_false_imp, decide_eq_false_iff_not]
  grind

/-- **The calls at each position tell the references.** -/
theorem references_congr {p : Package} {uses : List Occurrence}
    (h : ∀ position, m.callsAt position uses = m.callsAt position p.uses) :
    m.references origins { p with uses } = m.references origins p := by
  refine OrderedMap.eq_of_pairwise_lt (m.pairwise_references origins _)
    (m.pairwise_references origins p) fun r => ?_
  simp only [mem_references_iff, isLastCall_iff, h]

/-- Where there is a call there is a last one, and the canonical signature of its symbol is that of
a reference. -/
theorem exists_isLastCall {p : Package} {use : Occurrence} (hmem : use ∈ p.uses)
    (hcall : m.isCall use = true) :
    ∃ last symbol signature, m.IsLastCall p use.position last ∧
      m.symbols[last.symbol]? = some symbol ∧
      Naming.canonical? ⟨m.types, origins⟩ symbol = some signature ∧
      ⟨use.position, signature⟩ ∈ m.references origins p := by
  have hne : m.callsAt use.position p.uses ≠ [] :=
    List.ne_nil_of_mem (List.mem_filter.2 ⟨hmem, by simp [hcall]⟩)
  have hlast := (m.isLastCall_iff p use.position _).2 (List.getLast?_eq_some_getLast hne)
  obtain ⟨_, _, -, -, hcalled, -⟩ := id hlast
  rw [← isSome_signatureAt? m origins] at hcalled
  obtain ⟨signature, hsignature⟩ := Option.isSome_iff_exists.1 hcalled
  obtain ⟨symbol, hsymbol, hcanonical⟩ := Option.bind_eq_some_iff.1 hsignature
  exact ⟨_, symbol, signature, hlast, hsymbol, hcanonical,
    (m.mem_references_iff origins p _).2 ⟨_, hlast, hsignature⟩⟩

/-- The list holds a reference for the last call at each position. -/
structure ListsLastCalls (p : Package) (references : List Reference) : Prop where
  /-- The positions increase strictly. -/
  increasing : references.Pairwise fun r s => compare r.position s.position = .lt
  /-- Where there is a call there is exactly one reference, with the canonical signature of the
  symbol that the last one names. -/
  called : ∀ use ∈ p.uses, m.isCall use = true →
    ∃ last symbol signature, m.IsLastCall p use.position last ∧
      m.symbols[last.symbol]? = some symbol ∧
      Naming.canonical? ⟨m.types, origins⟩ symbol = some signature ∧
      references.filter (fun r => r.position = use.position) = [⟨use.position, signature⟩]
  /-- There is no reference where there is no call. -/
  uncalled : ∀ r ∈ references, ∃ use ∈ p.uses, use.position = r.position ∧ m.isCall use = true

/-- A position has at most one reference. -/
theorem filter_references_eq {p : Package} {r : Reference} (hr : r ∈ m.references origins p) :
    (m.references origins p).filter (fun s => s.position = r.position) = [r] := by
  have hfilter := (m.pairwise_references origins p).filter fun s => s.position = r.position
  refine OrderedMap.eq_of_pairwise_lt hfilter (List.pairwise_singleton _ r) fun s => ?_
  rw [List.mem_filter, List.mem_singleton, decide_eq_true_eq]
  constructor
  · rintro ⟨hs, hposition⟩
    -- both come from the last call at the position
    obtain ⟨use, hlast, hsignature⟩ := (m.mem_references_iff origins p s).1 hs
    obtain ⟨use', hlast', hsignature'⟩ := (m.mem_references_iff origins p r).1 hr
    rw [isLastCall_iff] at hlast hlast'
    rw [hposition, hlast', Option.some.injEq] at hlast
    rw [← hlast, hsignature', Option.some.injEq] at hsignature
    obtain ⟨position, signature⟩ := s
    subst hposition hsignature
    rfl
  · rintro rfl
    exact ⟨hr, rfl⟩

theorem listsLastCalls_references (p : Package) :
    m.ListsLastCalls origins p (m.references origins p) where
  increasing := m.pairwise_references origins p
  called use hmem hcall := by
    obtain ⟨last, symbol, signature, hlast, hsymbol, hcanonical, hr⟩ :=
      m.exists_isLastCall origins hmem hcall
    exact ⟨last, symbol, signature, hlast, hsymbol, hcanonical, m.filter_references_eq origins hr⟩
  uncalled r hr := by
    obtain ⟨use, ⟨before, after, huses, hposition, hcall, -⟩, -⟩ :=
      (m.mem_references_iff origins p r).1 hr
    exact ⟨use, by simp [huses], hposition, hcall⟩

/-- Occurrences of other symbols are not among the calls at a position. -/
theorem callsAt_insert {others : List Occurrence} (h : ∀ use ∈ others, m.isCall use = false)
    (position : Position) (before after : List Occurrence) :
    m.callsAt position (before ++ others ++ after) = m.callsAt position (before ++ after) := by
  have hnil : m.callsAt position others = [] := by
    refine List.filter_eq_nil_iff.2 fun use huse => ?_
    simp [h use huse]
  rw [callsAt] at hnil
  simp only [callsAt, List.filter_append, hnil, List.append_nil]

/-- **The references of a package are those of the last calls,** found in one pass or without
keeping anything; occurrences of other symbols, present or missing, and the order of calls at
different positions make no difference. -/
theorem references_listLastCalls (p : Package) :
    (CallScan.run m origins p.uses).references = m.references origins p ∧
    m.ListsLastCalls origins p (m.references origins p) ∧
    (∀ before after others, p.uses = before ++ after →
      (∀ use ∈ others, m.isCall use = false) →
      m.references origins { p with uses := before ++ others ++ after } =
        m.references origins p) ∧
    ∀ uses, (∀ position, m.callsAt position uses = m.callsAt position p.uses) →
      m.references origins { p with uses } = m.references origins p := by
  refine ⟨CallScan.references_run m origins p, m.listsLastCalls_references origins p, ?_,
    fun uses h => m.references_congr origins h⟩
  intro before after others huses hothers
  refine m.references_congr origins fun position => ?_
  rw [huses, m.callsAt_insert hothers]

/-- Two functions and a variable. -/
def twoFunctions : Model where
  symbols := [⟨"f", ⟨"lib"⟩, .function {}⟩, ⟨"v", ⟨"lib"⟩, .variable⟩,
    ⟨"g", ⟨"lib"⟩, .function {}⟩]

/-- The occurrence of a symbol in the given line of a file. -/
def usedAt (line symbol : Nat) : Occurrence :=
  ⟨⟨⟨"a.go"⟩, line, 1⟩, symbol⟩

/-- In the second line `f` and then `g` are called; `f` is called again in the first line.  Between
the calls a variable and a missing symbol are put, and the calls of the two lines change places. -/
theorem references_listLastCalls_twoFunctions :
    let p : Package := { path := "p", uses := [usedAt 2 0, usedAt 2 2, usedAt 1 0] }
    twoFunctions.references .empty p =
        [⟨⟨⟨"a.go"⟩, 1, 1⟩, "func lib.f()"⟩, ⟨⟨⟨"a.go"⟩, 2, 1⟩, "func lib.g()"⟩] ∧
      twoFunctions.references .empty
          { p with uses := [usedAt 2 0, usedAt 2 2] ++ [usedAt 2 1, usedAt 1 7] ++ [usedAt 1 0] } =
        twoFunctions.references .empty p ∧
      twoFunctions.references .empty { p with uses := [usedAt 1 0, usedAt 2 0, usedAt 2 2] } =
        twoFunctions.references .empty p := by
  intro p
  obtain ⟨-, -, hinsert, hreorder⟩ := twoFunctions.references_listLastCalls .empty p
  refine ⟨by decide +kernel, hinsert [usedAt 2 0, usedAt 2 2] [usedAt 1 0]
    [usedAt 2 1, usedAt 1 7] rfl (by decide), hreorder _ fun position => ?_⟩
  by_cases hfirst : (usedAt 1 0).position = position
  · subst hfirst
    decide
  · simp [callsAt, p, List.filter_cons, hfirst]

end Model

end CallPolicy
