import CallPolicy.Proofs.Consistency
import CallPolicy.Proofs.Gate
import Mathlib.Algebra.BigOperators.Group.List.Basic
import Mathlib.Data.List.Forall2

/-!
# A check is a view of the list of all references

The two modes run over the same references.  Listing writes each of them down with its signature.  A
check keeps those whose signature is forbidden, counts the ones among them that a comment permits,
and writes a message for the others.  Whether a comment permits a reference depends on its package,
so references are followed here together with their packages, from the packages to the sorted
report.

Listing asks no comment: it depends on the packages without their comments and source lines.

## Main statements

* `diagnostics_listAll`, `diagnostics_check` — both reports are read off the references in the order
  of positions.
* `length_add_suppressed_check` — a forbidden reference is reported or counted.
* `report_uncommented` — comments and source lines change no list.
* `exists_filteredView` — a check of a model is a view of the list of its references.
-/

namespace CallPolicy

/-! ## Models without comments -/

/-- The package without comments and source lines. -/
def Package.uncommented (p : Package) : Package :=
  { p with
    files := p.files.map fun file => { file with lines := [] }
    comments := [] }

/-- The model without comments and source lines. -/
def Model.uncommented (m : Model) : Model :=
  { m with packages := m.packages.map Package.uncommented }

theorem Model.inRange_uncommented_iff (m : Model) : m.uncommented.InRange ↔ m.InRange := by
  have huses : (∀ p ∈ m.uncommented.packages, ∀ use ∈ p.uses, use.symbol < m.symbols.length) ↔
      ∀ p ∈ m.packages, ∀ use ∈ p.uses, use.symbol < m.symbols.length := by
    simp [uncommented, Package.uncommented]
  exact ⟨fun h => ⟨huses.1 h.uses, h.types, h.symbols⟩,
    fun h => ⟨huses.2 h.uses, h.types, h.symbols⟩⟩

/-- Models that differ in comments and source lines only are consistent alike. -/
theorem Model.isConsistent_of_uncommented_eq {m m' : Model} (h : m'.uncommented = m.uncommented)
    (hm : m.isConsistent = true) : m'.isConsistent = true := by
  rw [isConsistent_iff, ← inRange_uncommented_iff] at hm ⊢
  rwa [h]

namespace Analyzer

/-! ## References with their packages -/

/-- The references of a model in files that are not left out, each with its package. -/
def calls (a : Analyzer) (m : Model) : List (Package × Reference) :=
  m.packages.flatMap fun p => (a.includedReferences m p).map fun r => (p, r)

/-- The same in the order of positions. -/
def sortedCalls (a : Analyzer) (m : Model) : List (Package × Reference) :=
  stableSort (fun c d => c.2.position.le d.2.position) (a.calls m)

/-- What a list says of a reference. -/
def listed (c : Package × Reference) : Diagnostic :=
  ⟨c.2.position, c.2.signature⟩

/-- What a check says of a reference, if it is forbidden and no comment permits it. -/
def denied? (denylist : Denylist) (c : Package × Reference) : Option Diagnostic :=
  (forbidden? denylist c.2).filter fun d => !isPermitted (CommentTable.ofPackage c.1) d.position

/-- The reference is forbidden. -/
def isForbidden (denylist : Denylist) (c : Package × Reference) : Bool :=
  (denylist.stored? c.2.signature).isSome

variable {a : Analyzer} {denylist : Denylist} {m : Model}

/-- Diagnostics that are read off the references one by one may be read off the sorted ones, if they
stand at the positions of the references. -/
theorem stableSort_filterMap_calls {f : Package × Reference → Option Diagnostic}
    (hf : ∀ c d, f c = some d → d.position = c.2.position) (a : Analyzer) (m : Model) :
    stableSort (fun d e => d.position.le e.position) ((a.calls m).filterMap f) =
      (a.sortedCalls m).filterMap f := by
  refine (filterMap_stableSort ?_ ?_ ?_ _).symm
  · exact fun c d e => Position.le_trans _ _ _
  · intro c d x y hx hy
    rw [hf c x hx, hf d y hy]
  · exact fun c d => Position.le_total _ _

/-! ## Lists -/

theorem allDiagnostics_listAll (hpolicy : a.policy = .listAll) :
    a.allDiagnostics m = (a.calls m).filterMap fun c => some (listed c) := by
  rw [calls, List.filterMap_flatMap]
  refine congrArg (m.packages.flatMap ·) (funext fun p => ?_)
  have hlisted : (a.outcome m p).diagnostics =
      (a.includedReferences m p).map fun r => listed (p, r) := by
    simp only [outcome, hpolicy, listed]
  rw [hlisted, List.filterMap_map, ← List.filterMap_eq_map']
  rfl

/-- The list of all references, in the order of positions. -/
theorem diagnostics_listAll (hpolicy : a.policy = .listAll) :
    (a.report m).diagnostics = (a.sortedCalls m).map listed := by
  have hposition : ∀ c d, some (listed c) = some d → d.position = c.2.position := by
    rintro c d ⟨rfl⟩
    rfl
  rw [diagnostics_report, allDiagnostics_listAll hpolicy,
    stableSort_filterMap_calls hposition, List.filterMap_eq_map']

/-- Comments and source lines change no list. -/
theorem report_uncommented (hpolicy : a.policy = .listAll) (m : Model) :
    a.report m.uncommented = a.report m := by
  have houtcome : ∀ p, a.outcome m.uncommented p.uncommented = a.outcome m p := by
    intro p
    have hreferences : a.includedReferences m.uncommented p.uncommented =
        a.includedReferences m p := rfl
    unfold outcome
    rw [hpolicy, hreferences]
    simp [Package.uncommented]
  have houtcomes : m.uncommented.packages.map (a.outcome m.uncommented) =
      m.packages.map (a.outcome m) := by
    rw [Model.uncommented, List.map_map]
    exact List.map_congr_left fun p _ => houtcome p
  rw [report, report, houtcomes]

/-! ## Checks -/

/-- What is denied stands at the position of the reference, which is forbidden. -/
theorem denied?_eq_some {c : Package × Reference} {d : Diagnostic}
    (h : denied? denylist c = some d) :
    d.position = c.2.position ∧ denylist.messageFor? c.2.signature = some d.message := by
  obtain ⟨hforbidden, -⟩ := Option.filter_eq_some_iff.1 h
  obtain ⟨message, hmessage, rfl⟩ := Option.map_eq_some_iff.1 hforbidden
  exact ⟨rfl, hmessage⟩

theorem allDiagnostics_check (hpolicy : a.policy = .check denylist) :
    a.allDiagnostics m = (a.calls m).filterMap (denied? denylist) := by
  rw [calls, List.filterMap_flatMap]
  refine congrArg (m.packages.flatMap ·) (funext fun p => ?_)
  simp only [outcome, hpolicy, List.filterMap_map]
  rw [List.filter_filterMap]
  rfl

/-- The check of all references, in the order of positions. -/
theorem diagnostics_check (hpolicy : a.policy = .check denylist) :
    (a.report m).diagnostics = (a.sortedCalls m).filterMap (denied? denylist) := by
  rw [diagnostics_report, allDiagnostics_check hpolicy]
  exact stableSort_filterMap_calls (fun c d h => (denied?_eq_some h).1) a m

/-- A forbidden reference of a package is reported or counted. -/
theorem length_add_suppressed_outcome (hpolicy : a.policy = .check denylist) (p : Package) :
    (a.outcome m p).diagnostics.length + (a.outcome m p).suppressed =
      (a.includedReferences m p).countP fun r => (denylist.stored? r.signature).isSome := by
  have hforbidden : ∀ r, (forbidden? denylist r).isSome =
      (denylist.stored? r.signature).isSome := by
    intro r
    rw [forbidden?, Option.isSome_map, Denylist.isSome_messageFor?]
  have hsplit : ∀ (ds : List Diagnostic) (permitted : Diagnostic → Bool),
      (ds.filter fun d => !permitted d).length + ds.countP permitted = ds.length := by
    intro ds permitted
    rw [ds.length_eq_countP_add_countP permitted, Nat.add_comm, List.countP_eq_length_filter]
    simp [List.countP_eq_length_filter]
  simp only [outcome, hpolicy, hsplit, List.length_filterMap_eq_countP, hforbidden]

/-- **A forbidden reference is reported or counted.** -/
theorem length_add_suppressed_check (hpolicy : a.policy = .check denylist) :
    (a.report m).diagnostics.length + (a.report m).suppressed =
      (a.sortedCalls m).countP (isForbidden denylist) := by
  have hcalls : (a.sortedCalls m).countP (isForbidden denylist) =
      (a.calls m).countP (isForbidden denylist) :=
    (stableSort_perm _).countP_eq _
  rw [(perm_diagnostics_report a m).length_eq, suppressed_report, hcalls, allDiagnostics, calls,
    List.length_flatMap, List.countP_flatMap, ← List.sum_map_add]
  refine congrArg List.sum (List.map_congr_left fun p _ => ?_)
  rw [length_add_suppressed_outcome hpolicy, Function.comp_apply, List.countP_map]
  rfl

/-! ## The two modes together -/

/-- The check is a view of the list of all references. -/
structure FilteredView (denylist : Denylist) (listing check : Report) : Prop where
  /-- It shows some of the listed references, all forbidden, at their positions and in their order,
  each with the message for its signature. -/
  shown : ∃ kept : List Diagnostic, kept.Sublist listing.diagnostics ∧
    (∀ d ∈ kept, (denylist.stored? d.message).isSome = true) ∧
    List.Forall₂ (fun d e => e.position = d.position ∧
      denylist.messageFor? d.message = some e.message) kept check.diagnostics
  /-- Each forbidden reference of the list is shown or counted. -/
  conserved : check.diagnostics.length + check.suppressed =
    listing.diagnostics.countP fun d => (denylist.stored? d.message).isSome

/-- What is selected from a list stands for a part of the list. -/
theorem forall₂_filterMap {α β : Type} {f : α → Option β} {xs : List α} :
    List.Forall₂ (fun x y => f x = some y) (xs.filter fun x => (f x).isSome) (xs.filterMap f) := by
  induction xs with
  | nil => exact .nil
  | cons x rest ih =>
    cases hx : f x with
    | none => simpa [hx] using ih
    | some y => simpa [hx] using ih

/-- The reports on one model in the two modes. -/
theorem filteredView_report (a : Analyzer) (denylist : Denylist) (m : Model) :
    FilteredView denylist ({ a with policy := .listAll }.report m)
      ({ a with policy := .check denylist }.report m) := by
  have hlist : ({ a with policy := .listAll }.report m).diagnostics =
      (a.sortedCalls m).map listed := diagnostics_listAll rfl
  have hcheck : ({ a with policy := .check denylist }.report m).diagnostics =
      (a.sortedCalls m).filterMap (denied? denylist) := diagnostics_check rfl
  refine ⟨⟨((a.sortedCalls m).filter fun c => (denied? denylist c).isSome).map listed, ?_, ?_, ?_⟩,
    ?_⟩
  · rw [hlist]
    exact List.filter_sublist.map listed
  · rw [List.forall_mem_map]
    intro c hc
    obtain ⟨d, hd⟩ := Option.isSome_iff_exists.1 (List.mem_filter.1 hc).2
    rw [← Denylist.isSome_messageFor?]
    exact Option.isSome_iff_exists.2 ⟨_, (denied?_eq_some hd).2⟩
  · rw [hcheck, List.forall₂_map_left_iff]
    refine List.Forall₂.imp ?_ forall₂_filterMap
    exact fun c d hd => denied?_eq_some hd
  · rw [length_add_suppressed_check rfl, hlist, List.countP_map]
    rfl

/-- **A check of a model is a view of the list of its references,** and the list passes and does not
depend on comments. -/
theorem exists_filteredView (hlisted : denylist.isEmpty = false)
    (hload : a.loader a.specs a.dir = .ok m) (hm : m.isConsistent = true) :
    ∃ listing check, { a with policy := .listAll }.analyze = .ok listing ∧
      { a with policy := .check denylist }.analyze = .ok check ∧
      FilteredView denylist listing check ∧ listing.verdict = .pass ∧
      ∀ (loader : Loader) (m' : Model), loader a.specs a.dir = .ok m' →
        m'.uncommented = m.uncommented →
        { a with policy := .listAll, loader }.analyze = .ok listing := by
  refine ⟨_, _, analyze_eq_report rfl hload hm, analyze_eq_report hlisted hload hm,
    filteredView_report a denylist m, ?_, ?_⟩
  · rw [Report.verdict, mode_report]
    rfl
  · intro loader m' hload' hsame
    have hm' := Model.isConsistent_of_uncommented_eq hsame hm
    rw [analyze_eq_report (a := { a with policy := .listAll, loader }) rfl hload' hm',
      ← report_uncommented rfl m', hsame, report_uncommented rfl m]
    rfl

theorem exists_filteredView_sharedPosition :
    (Denylist.ofList [("func lib.f()", "")]).isEmpty = false ∧
      sharedPosition.isConsistent = true ∧
      sharedPosition.uncommented.uncommented = sharedPosition.uncommented ∧
      ∃ listing check,
        { checkOf sharedPosition .empty with policy := .listAll }.analyze = .ok listing ∧
        (checkOf sharedPosition (.ofList [("func lib.f()", "")])).analyze = .ok check ∧
        FilteredView (.ofList [("func lib.f()", "")]) listing check ∧ listing.verdict = .pass ∧
        { checkOf sharedPosition.uncommented .empty with policy := .listAll }.analyze =
          .ok listing := by
  have hlisted : (Denylist.ofList [("func lib.f()", "")]).isEmpty = false := rfl
  have hconsistent : sharedPosition.isConsistent = true := by decide
  have hsame : sharedPosition.uncommented.uncommented = sharedPosition.uncommented := rfl
  obtain ⟨listing, check, hlisting, hcheck, hview, hverdict, hcomments⟩ :=
    exists_filteredView (a := checkOf sharedPosition .empty) hlisted rfl hconsistent
  exact ⟨hlisted, hconsistent, hsame, listing, check, hlisting, hcheck, hview, hverdict,
    hcomments _ _ rfl hsame⟩

end Analyzer

end CallPolicy
