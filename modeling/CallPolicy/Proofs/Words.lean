import CallPolicy.Proofs.Loading
import CallPolicy.Proofs.ModelCodec
import CallPolicy.Proofs.Outcome

/-!
# Lines and columns are words

A decoder takes only numbers that fit a 64-bit word, and what an analysis reports stands at a
position that was decoded from a model file.  So a report on a loaded model can be read back as soon
as its counts fit a word.

## Main statements

* `Model.hasWords_of_parse?` — the positions in a decoded model are words.
* `FileTree.hasWords_of_loadModels` — so are those in a model that was merged from files.
* `Report.readable_encode` — a report whose numbers are words can be read back.
-/

namespace CallPolicy

/-! ## Decoded values -/

namespace Json

/-- A number that was read fits a word. -/
theorem le_of_nat?_eq_some {value : Json} {n : Nat} (h : value.nat? = some n) :
    n ≤ Decimal.maxWord := by
  unfold nat? at h
  split at h
  next k =>
    split at h
    next hk =>
      cases h
      exact hk
    · cases h
  · cases h

section

variable {α : Type} {decode : Json → Option α} {name : String} {members : Members} {x : α}

/-- A field that must be there was decoded from some value. -/
theorem exists_of_required (h : required decode name members = some x) :
    ∃ value, decode value = some x := by
  unfold required at h
  split at h
  next value _ => exact ⟨value, h⟩
  · cases h

/-- A field with a default has its default or was decoded from some value. -/
theorem exists_of_defaulted {default : α} (h : defaulted default decode name members = some x) :
    x = default ∨ ∃ value, decode value = some x := by
  unfold defaulted at h
  split at h
  · exact .inl (Option.some.inj h).symm
  next value _ => exact .inr ⟨value, h⟩
  · cases h

end

section

variable {α : Type} {P : α → Prop} {decode : Nat → Json → Option α}
  (hdecode : ∀ bound value x, decode bound value = some x → P x)
include hdecode

/-- What holds of every decoded item holds of the items of a decoded list. -/
theorem forall_mem_of_listOf {bound : Nat} {value : Json} {xs : List α}
    (h : listOf decode bound value = some xs) : ∀ x ∈ xs, P x := by
  unfold listOf at h
  split at h
  next bound items =>
    induction items generalizing xs with
    | nil =>
      cases h
      exact List.forall_mem_nil _
    | cons item items ih =>
      rw [List.mapM_cons, Option.bind_eq_bind, Option.bind_eq_some_iff] at h
      obtain ⟨x, hx, h⟩ := h
      rw [Option.bind_eq_bind, Option.bind_eq_some_iff] at h
      obtain ⟨rest, hrest, h⟩ := h
      cases h
      exact List.forall_mem_cons.2 ⟨hdecode bound item x hx, ih hrest⟩
  · cases h

/-- A list that may be left out holds decoded items only. -/
theorem forall_mem_of_defaulted {bound : Nat} {name : String} {members : Members} {xs : List α}
    (h : defaulted [] (listOf decode bound) name members = some xs) : ∀ x ∈ xs, P x := by
  rcases exists_of_defaulted h with rfl | ⟨value, hvalue⟩
  · exact List.forall_mem_nil _
  · exact forall_mem_of_listOf hdecode hvalue

end

end Json

/-! ## Positions in models -/

/-- The line and the column are words. -/
structure Position.HasWords (p : Position) : Prop where
  line_le : p.line ≤ Decimal.maxWord
  column_le : p.column ≤ Decimal.maxWord

theorem Position.hasWords_of_ofFields {fields : Json.Members} {p : Position}
    (h : Position.ofFields fields = some p) : p.HasWords := by
  simp only [ofFields, Option.bind_eq_bind, Option.bind_eq_some_iff] at h
  obtain ⟨file, -, line, hline, column, hcolumn, h⟩ := h
  cases h
  obtain ⟨lineValue, hline⟩ := Json.exists_of_required hline
  obtain ⟨columnValue, hcolumn⟩ := Json.exists_of_required hcolumn
  exact ⟨Json.le_of_nat?_eq_some hline, Json.le_of_nat?_eq_some hcolumn⟩

theorem Occurrence.hasWords_of_decode (bound : Nat) (value : Json) (use : Occurrence)
    (h : Occurrence.decode bound value = some use) : use.position.HasWords := by
  unfold decode at h
  split at h
  · simp only [Option.bind_eq_bind, Option.bind_eq_some_iff] at h
    obtain ⟨members, -, symbol, -, others, -, position, hposition, h⟩ := h
    cases h
    exact Position.hasWords_of_ofFields hposition
  · cases h

/-- The occurrences in the package stand at words. -/
def Package.HasWords (p : Package) : Prop :=
  ∀ use ∈ p.uses, use.position.HasWords

theorem Package.hasWords_of_decode (bound : Nat) (value : Json) (p : Package)
    (h : Package.decode bound value = some p) : p.HasWords := by
  cases bound with
  | zero => cases h
  | succ bound =>
    simp only [decode, Option.bind_eq_bind, Option.bind_eq_some_iff] at h
    obtain ⟨fields, -, path, -, files, -, uses, huses, comments, -, h⟩ := h
    cases h
    exact Json.forall_mem_of_defaulted Occurrence.hasWords_of_decode huses

theorem Package.hasWords_shiftSymbols_iff (k : Nat) (p : Package) :
    (p.shiftSymbols k).HasWords ↔ p.HasWords :=
  List.forall_mem_map

theorem Package.HasWords.mapPaths {p : Package} (h : p.HasWords) (f : Path → Path) :
    (p.mapPaths f).HasWords :=
  List.forall_mem_map.2 fun use huse => ⟨(h use huse).line_le, (h use huse).column_le⟩

namespace Model

/-- The occurrences in the model stand at words. -/
def HasWords (m : Model) : Prop :=
  ∀ p ∈ m.packages, p.HasWords

theorem hasWords_of_parse? {text : String} {m : Model} (h : Model.parse? text = some m) :
    m.HasWords := by
  obtain ⟨value, -, hvalue⟩ := Option.bind_eq_some_iff.1 h
  simp only [Json.maxDepth, decode, Option.bind_eq_bind, Option.bind_eq_some_iff] at hvalue
  obtain ⟨fields, -, packages, hpackages, symbols, -, types, -, hm⟩ := hvalue
  cases hm
  exact Json.forall_mem_of_defaulted Package.hasWords_of_decode hpackages

theorem HasWords.mapPaths {m : Model} (h : m.HasWords) (f : Path → Path) :
    (m.mapPaths f).HasWords :=
  List.forall_mem_map.2 fun p hp => (h p hp).mapPaths f

theorem HasWords.merge {a b : Model} (ha : a.HasWords) (hb : b.HasWords) :
    (a.merge b).HasWords := by
  refine List.forall_mem_append.2 ⟨ha, List.forall_mem_map.2 ?_⟩
  exact fun p hp => (p.hasWords_shiftSymbols_iff _).2 (hb p hp)

theorem HasWords.foldl_merge {a : Model} {models : List Model} (ha : a.HasWords)
    (h : ∀ b ∈ models, b.HasWords) : (models.foldl Model.merge a).HasWords := by
  induction models generalizing a with
  | nil => exact ha
  | cons b rest ih =>
    rw [List.forall_mem_cons] at h
    exact ih (ha.merge h.1) h.2

end Model

namespace FileTree

variable {t : FileTree}

theorem hasWords_of_loadModel {path : Path} {m : Model} (h : t.loadModel path = .ok m) :
    m.HasWords := by
  obtain ⟨text, model, -, hparse, -, rfl | ⟨f, rfl⟩⟩ := exists_of_loadModel h
  · exact Model.hasWords_of_parse? hparse
  · exact (Model.hasWords_of_parse? hparse).mapPaths f

/-- **The positions in a model that was loaded are words.** -/
theorem hasWords_of_loadModels {specs : List String} {dir : Path} {m : Model}
    (h : t.loadModels specs dir = .ok m) : m.HasWords := by
  obtain ⟨found, files, models, hloaded⟩ := exists_loaded h
  rw [hloaded.merged]
  refine Model.HasWords.foldl_merge (List.forall_mem_nil _) ?_
  intro model hmodel
  obtain ⟨file, -, hfile⟩ := exists_mem_of_forall₂ hloaded.loaded hmodel
  exact hasWords_of_loadModel hfile

end FileTree

/-! ## Positions in reports -/

namespace Analyzer

variable {a : Analyzer} {m : Model}

theorem hasWords_of_mem_includedReferences {p : Package} (h : p.HasWords) {r : Reference}
    (hr : r ∈ a.includedReferences m p) : r.position.HasWords := by
  obtain ⟨use, ⟨before, after, huses, hposition, -⟩, -⟩ :=
    (Model.mem_references_iff _ _ _ _).1 (List.mem_of_mem_filter hr)
  rw [← hposition]
  exact h use (by simp [huses])

/-- Whatever the policy, a diagnostic stands at a position of the package. -/
theorem hasWords_of_mem_outcome {p : Package} (h : p.HasWords) {d : Diagnostic}
    (hd : d ∈ (a.outcome m p).diagnostics) : d.position.HasWords := by
  unfold outcome at hd
  split at hd
  · obtain ⟨r, hr, rfl⟩ := List.mem_map.1 hd
    exact hasWords_of_mem_includedReferences h hr
  · obtain ⟨r, hr, hforbidden⟩ := List.mem_filterMap.1 (List.mem_of_mem_filter hd)
    obtain ⟨message, -, rfl⟩ := Option.map_eq_some_iff.1 hforbidden
    exact hasWords_of_mem_includedReferences h hr

theorem hasWords_of_mem_report (h : m.HasWords) {d : Diagnostic}
    (hd : d ∈ (a.report m).diagnostics) : d.position.HasWords := by
  obtain ⟨p, hp, hd⟩ := List.mem_flatMap.1 ((perm_diagnostics_report a m).mem_iff.1 hd)
  exact hasWords_of_mem_outcome (h p hp) hd

end Analyzer

/-! ## Reading reports back -/

namespace Json

theorem readable_ofText (bound : Nat) (text : String) : (ofText text).Readable bound :=
  ⟨Nat.zero_le _, rfl⟩

theorem readable_ofNat (bound : Nat) {n : Nat} (h : n ≤ Decimal.maxWord) :
    (ofNat n).Readable bound :=
  ⟨Nat.zero_le _, decide_eq_true h⟩

end Json

namespace Report

/-- The counts are words. -/
structure CountsFit (r : Report) : Prop where
  packages_le : r.packagesChecked ≤ Decimal.maxWord
  files_le : r.filesChecked ≤ Decimal.maxWord
  suppressed_le : r.suppressed ≤ Decimal.maxWord

/-- A report whose numbers are words can be read back by any reader of four levels. -/
theorem readable_encode {r : Report} (hcounts : r.CountsFit)
    (h : ∀ d ∈ r.diagnostics, d.position.HasWords) (bound : Nat) :
    r.encode.Readable (bound + 4) := by
  have hposition : ∀ d ∈ r.diagnostics, d.position.encode.Readable (bound + 1) := by
    intro d hd
    refine Json.readable_ofMembers_iff.2 ⟨bound, rfl, ?_⟩
    simp only [Position.members, List.forall_mem_cons]
    exact ⟨Json.readable_ofText _ _, Json.readable_ofNat _ (h d hd).line_le,
      Json.readable_ofNat _ (h d hd).column_le, List.forall_mem_nil _⟩
  have hdiagnostic : ∀ d ∈ r.diagnostics, d.encode.Readable (bound + 2) := by
    intro d hd
    refine Json.readable_ofMembers_iff.2 ⟨bound + 1, rfl, ?_⟩
    simp only [List.forall_mem_cons]
    exact ⟨hposition d hd, Json.readable_ofText _ _, List.forall_mem_nil _⟩
  have hdiagnostics : (Json.array (r.diagnostics.map Diagnostic.encode)).Readable (bound + 3) :=
    Json.readable_array_iff.2 ⟨bound + 2, rfl, List.forall_mem_map.2 hdiagnostic⟩
  refine Json.readable_ofMembers_iff.2 ⟨bound + 3, rfl, ?_⟩
  simp only [List.forall_mem_cons]
  exact ⟨Json.readable_ofText _ _, hdiagnostics, Json.readable_ofNat _ hcounts.packages_le,
    Json.readable_ofNat _ hcounts.files_le, Json.readable_ofNat _ hcounts.suppressed_le,
    List.forall_mem_nil _⟩

end Report

end CallPolicy
