import CallPolicy.Proofs.CallScan
import CallPolicy.Proofs.SpecifierOrder
import Mathlib.Data.List.Pairwise

/-!
# The order of positions and their meaning

Positions are ordered by how their files are written, and they are alike if their files mean the
same.  Positions that are alike compare as equal exactly if their files are written the same, so the
order tells two spellings of one file apart, and a package that spells the file of a call in two
ways has two references for one place.  Where each place is spelled in one way the references are
told apart by meaning too, and the last call counts among all that are alike; this is so in
particular for paths without repeated slashes and idle segments.

## Main statements

* `Path.IsTidy.eq_of_components_eq` — paths of one meaning that are written tidily are the same.
* `Position.compare_eq_iff` — positions compare as equal exactly if they are alike and their files
  are written the same.
* `Model.pairwise_alike_iff` — no two references are alike exactly if each place is spelled once.
* `Model.alike_agrees_iff` — where the order agrees with the meaning.
-/

namespace CallPolicy

/-! ## Paths without redundant parts -/

namespace Path

/-- The segments of a path with the given anchor and nothing idle that could be left out. -/
def tidySegments (anchor : Anchor) (steps : List (List Char)) : List (List Char) :=
  if steps.isEmpty then [[]] else if anchor = .current then [] :: steps else steps

/-- The path has no repeated slash, no slash at its end unless it is the root, and no `.` but at its
start. -/
def IsTidy (p : Path) : Prop :=
  p.segments = tidySegments p.anchor p.steps

instance (p : Path) : Decidable p.IsTidy :=
  inferInstanceAs (Decidable (p.segments = tidySegments p.anchor p.steps))

/-- Paths of one meaning that are written tidily are the same. -/
theorem IsTidy.eq_of_components_eq {p q : Path} (hp : p.IsTidy) (hq : q.IsTidy)
    (h : p.components = q.components) : p = q := by
  have hanchor : p.anchor = q.anchor := anchor_eq_of_components_eq h
  have hsegments : p.segments = q.segments := by
    rw [hp, hq, hanchor, steps_eq_of_components_eq h]
  rw [← ofParts_anchor_segments p, hanchor, hsegments, ofParts_anchor_segments]

end Path

/-! ## Positions -/

namespace Position

/-- Positions compare as equal exactly if they are alike and their files are written the same. -/
theorem compare_eq_iff (a b : Position) :
    compare a b = .eq ↔ a.alike b = true ∧ a.file.text = b.file.text := by
  obtain ⟨⟨text⟩, line, column⟩ := a
  obtain ⟨⟨text'⟩, line', column'⟩ := b
  rw [Std.LawfulEqOrd.compare_eq_iff_eq, alike_iff]
  constructor
  · rintro ⟨⟩
    exact ⟨⟨rfl, rfl, rfl⟩, rfl⟩
  · rintro ⟨⟨-, rfl, rfl⟩, rfl⟩
    rfl

theorem alike_refl (a : Position) : a.alike a = true :=
  alike_iff.2 ⟨rfl, rfl, rfl⟩

theorem alike_comm (a b : Position) : a.alike b = b.alike a := by
  rw [Bool.eq_iff_iff, alike_iff, alike_iff, eq_comm, @eq_comm _ a.line, @eq_comm _ a.column]

/-- In files that are written tidily the order agrees with the meaning. -/
theorem compare_eq_iff_alike {a b : Position} (ha : a.file.IsTidy) (hb : b.file.IsTidy) :
    compare a b = .eq ↔ a.alike b = true := by
  rw [compare_eq_iff]
  refine and_iff_left_of_imp fun halike => ?_
  rw [ha.eq_of_components_eq hb (alike_iff.1 halike).1]

end Position

/-! ## References -/

namespace Model

variable (m : Model) (origins : OriginMap)

/-- Calls at positions that are alike are written at the same position. -/
def SpellsOnce (p : Package) : Prop :=
  ∀ u ∈ p.uses, ∀ v ∈ p.uses, m.isCall u = true → m.isCall v = true →
    u.position.alike v.position = true → u.position = v.position

/-- The occurrence is the last call at a position that is alike. -/
def IsLastAlike (p : Package) (position : Position) (use : Occurrence) : Prop :=
  ∃ before after, p.uses = before ++ use :: after ∧
    use.position.alike position = true ∧ m.isCall use = true ∧
    ∀ later ∈ after, later.position.alike position = true → m.isCall later = false

/-- A reference stands where there is a call. -/
theorem exists_call_of_mem_references {p : Package} {r : Reference}
    (hr : r ∈ m.references origins p) :
    ∃ use ∈ p.uses, use.position = r.position ∧ m.isCall use = true :=
  (m.listsLastCalls_references origins p).uncalled r hr

/-- **No two references are alike exactly if each place is spelled once.** -/
theorem pairwise_alike_iff (p : Package) :
    (m.references origins p).Pairwise (fun r s => r.position.alike s.position = false) ↔
      m.SpellsOnce p := by
  constructor
  · intro hpairwise u hu v hv hcallu hcallv halike
    obtain ⟨-, -, signature, -, -, -, hr⟩ := m.exists_isLastCall origins hu hcallu
    obtain ⟨-, -, signature', -, -, -, hs⟩ := m.exists_isLastCall origins hv hcallv
    by_contra hne
    have hsymm : Std.Symm fun r s : Reference => r.position.alike s.position = false :=
      ⟨fun r s h => by rw [Position.alike_comm, h]⟩
    have hfalse := hpairwise.forall hr hs fun heq => hne (congrArg Reference.position heq)
    rw [halike] at hfalse
    cases hfalse
  · intro hspells
    refine (m.pairwise_references origins p).imp_of_mem fun {r s} hr hs hlt => ?_
    obtain ⟨u, hu, hposition, hcallu⟩ := m.exists_call_of_mem_references origins hr
    obtain ⟨v, hv, hposition', hcallv⟩ := m.exists_call_of_mem_references origins hs
    rw [Bool.eq_false_iff]
    intro halike
    have heq : r.position = s.position := by
      rw [← hposition, ← hposition'] at halike ⊢
      exact hspells u hu v hv hcallu hcallv halike
    rw [heq] at hlt
    exact Std.OrientedCmp.not_lt_of_lt hlt hlt

/-- Where each place is spelled once, the last call at a position is the last one of all that are
alike. -/
theorem SpellsOnce.isLastAlike {m : Model} {p : Package} {position : Position} {use : Occurrence}
    (hspells : m.SpellsOnce p) (h : m.IsLastCall p position use) :
    m.IsLastAlike p position use := by
  obtain ⟨before, after, huses, hposition, hcall, hlater⟩ := h
  refine ⟨before, after, huses, by rw [hposition, Position.alike_refl], hcall, ?_⟩
  intro later hmem halike
  by_contra hcalled
  rw [Bool.not_eq_false] at hcalled
  have heq : later.position = use.position := by
    refine hspells later ?_ use ?_ hcalled hcall (by rwa [hposition])
    · simp [huses, hmem]
    · simp [huses]
  rw [hlater later hmem (heq.trans hposition)] at hcalled
  cases hcalled

/-- Where each place is spelled once, the references alike to a call are the one of the last call
there. -/
theorem SpellsOnce.filter_references {m : Model} {p : Package} {use : Occurrence}
    (hspells : m.SpellsOnce p) (origins : OriginMap) (hmem : use ∈ p.uses)
    (hcall : m.isCall use = true) :
    ∃ last symbol signature, m.IsLastAlike p use.position last ∧
      m.symbols[last.symbol]? = some symbol ∧
      Naming.canonical? ⟨m.types, origins⟩ symbol = some signature ∧
      (m.references origins p).filter (fun r => r.position.alike use.position) =
        [⟨use.position, signature⟩] := by
  obtain ⟨last, symbol, signature, hlast, hsymbol, hcanonical, hr⟩ :=
    m.exists_isLastCall origins hmem hcall
  refine ⟨last, symbol, signature, hspells.isLastAlike hlast, hsymbol, hcanonical, ?_⟩
  rw [← m.filter_references_eq origins hr]
  refine List.filter_congr fun r hr' => ?_
  rw [Bool.eq_iff_iff, decide_eq_true_eq]
  constructor
  · intro halike
    obtain ⟨v, hv, hposition, hcallv⟩ := m.exists_call_of_mem_references origins hr'
    rw [← hposition] at halike ⊢
    exact hspells v hv use hmem hcallv hcall halike
  · rintro heq
    rw [heq, Position.alike_refl]

/-- **Where the order of positions agrees with their meaning.**  Positions compare as equal exactly
if they are alike and their files are written the same; a package has no two references that are
alike exactly if it spells each place of a call once, and then the last call counts among all that
are alike.  Both agree in files that are written tidily. -/
theorem alike_agrees_iff (a b : Position) (m : Model) (origins : OriginMap) (p : Package) :
    (compare a b = .eq ↔ a.alike b = true ∧ a.file.text = b.file.text) ∧
    (a.file.IsTidy → b.file.IsTidy → (compare a b = .eq ↔ a.alike b = true)) ∧
    ((m.references origins p).Pairwise (fun r s => r.position.alike s.position = false) ↔
      m.SpellsOnce p) ∧
    ((∀ use ∈ p.uses, m.isCall use = true → use.position.file.IsTidy) → m.SpellsOnce p) ∧
    (m.SpellsOnce p → ∀ use ∈ p.uses, m.isCall use = true →
      ∃ last symbol signature, m.IsLastAlike p use.position last ∧
        m.symbols[last.symbol]? = some symbol ∧
        Naming.canonical? ⟨m.types, origins⟩ symbol = some signature ∧
        (m.references origins p).filter (fun r => r.position.alike use.position) =
          [⟨use.position, signature⟩]) := by
  refine ⟨Position.compare_eq_iff a b, Position.compare_eq_iff_alike,
    m.pairwise_alike_iff origins p, ?_,
    fun hspells use hmem hcall => hspells.filter_references origins hmem hcall⟩
  intro htidy u hu v hv hcallu hcallv halike
  exact Std.LawfulEqOrd.eq_of_compare
    ((Position.compare_eq_iff_alike (htidy u hu hcallu) (htidy v hv hcallv)).2 halike)

/-- Two calls at one position of a file that is not written tidily, but in one way. -/
theorem alike_agrees_iff_twoFunctions :
    let position : Position := ⟨⟨"a/./b.go"⟩, 1, 1⟩
    let p : Package := { path := "p", uses := [⟨position, 0⟩, ⟨position, 2⟩] }
    ¬position.file.IsTidy ∧ twoFunctions.SpellsOnce p ∧
      twoFunctions.references .empty p = [⟨position, "func lib.g()"⟩] ∧
      ∃ last symbol signature, twoFunctions.IsLastAlike p position last ∧
        twoFunctions.symbols[last.symbol]? = some symbol ∧
        Naming.canonical? ⟨twoFunctions.types, .empty⟩ symbol = some signature ∧
        (twoFunctions.references .empty p).filter (fun r => r.position.alike position) =
          [⟨position, signature⟩] := by
  intro position p
  have hreferences : twoFunctions.references .empty p = [⟨position, "func lib.g()"⟩] := by
    decide +kernel
  obtain ⟨-, -, hiff, -, hlast⟩ := alike_agrees_iff position position twoFunctions .empty p
  have hspells : twoFunctions.SpellsOnce p := by
    rw [← hiff, hreferences]
    exact List.pairwise_singleton _ _
  exact ⟨by decide +kernel, hspells, hreferences,
    hlast hspells ⟨position, 2⟩ (by simp [p]) (by decide +kernel)⟩

/-- Two spellings of one file: the positions are alike and differ in the order, and a package with a
call at each of them has two references. -/
theorem references_respelled :
    let a : Position := ⟨⟨"a//b.go"⟩, 1, 1⟩
    let b : Position := ⟨⟨"a/b.go"⟩, 1, 1⟩
    a.alike b = true ∧ compare a b = .lt ∧
      twoFunctions.references .empty { path := "p", uses := [⟨a, 0⟩, ⟨b, 2⟩] } =
        [⟨a, "func lib.f()"⟩, ⟨b, "func lib.g()"⟩] := by
  decide +kernel

end Model

end CallPolicy
