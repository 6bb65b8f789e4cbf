import CallPolicy.Proofs.ExitStatus
import CallPolicy.Proofs.Gate
import CallPolicy.Proofs.Spelling

/-!
# The lines of the output

The text output of a check is read line by line, and each line is about one diagnostic.  A line
shows the file and the message of its diagnostic as they are, so a line feed in either of them would
break it.  Messages come from two sources.  A stored text is shown as it is.  The default wording
goes around a signature, which is put together from names that nobody has checked; but there it is
quoted, and a quoted text stays on one line.

So the names in a model cannot break a line.  Only the paths of files and the stored texts can, and
if these are of one line each, the output can be taken apart at its line feeds.

## Main statements

* `Text.length_split` — there is one piece more than there are separators.
* `Text.lineFeed_not_mem_quote`, `Denylist.lineFeed_not_mem_defaultMessage` — a quoted text and the
  default wording stay on one line, whatever the signature holds.
* `Report.oneLineEach_iff` — when each diagnostic has a line of its own.
* `Analyzer.oneLineEach_of_check` — the output of a check.
-/

namespace CallPolicy

/-! ## Pieces and line feeds -/

namespace Text

/-- There is one piece more than there are separators. -/
theorem length_split (sep : Char) (text : List Char) :
    (split sep text).length = text.count sep + 1 := by
  induction text with
  | nil => rfl
  | cons c text ih =>
    cases hpieces : split sep text with
    | nil => exact absurd hpieces (split_ne_nil sep text)
    | cons piece pieces =>
      rw [hpieces] at ih
      by_cases hc : c = sep
      · simpa [split, hc, hpieces] using ih
      · simpa [split, hc, hpieces] using ih

/-- Decimal digits hold no line feed. -/
theorem lineFeed_not_mem_repr (n : Nat) : '\n' ∉ (Nat.repr n).toList := by
  intro h
  rw [Nat.toList_repr] at h
  have hdigit : '\n'.isDigit = true := Json.isDigit_of_mem_toDigits h
  cases hdigit

/-- **A quoted text stays on one line.** -/
theorem lineFeed_not_mem_quote (text : String) : '\n' ∉ (quote text).toList := by
  rw [quote, String.toList_ofList, quoteChars, List.mem_append, List.mem_cons, List.mem_flatMap]
  rintro ((hquote | ⟨c, -, hc⟩) | hquote)
  · exact absurd hquote (by decide)
  · exact lineFeed_not_mem_quoteChar c hc
  · exact absurd hquote (by decide)

end Text

/-- **The default wording stays on one line, whatever the signature holds.** -/
theorem Denylist.lineFeed_not_mem_defaultMessage (signature : String) :
    '\n' ∉ (defaultMessage signature).toList := by
  have hquoted := Text.lineFeed_not_mem_quote signature
  change '\n' ∉ ("references to " ++ Text.quote signature ++ _ ++ okMarker ++ _).toList
  simp only [String.toList_append, List.mem_append, not_or]
  exact ⟨⟨⟨⟨by decide, hquoted⟩, by decide +kernel⟩, by decide⟩, by decide +kernel⟩

/-! ## Diagnostics and their lines -/

/-- Only the file and the message of a diagnostic can break its line. -/
theorem Diagnostic.lineFeed_mem_render_iff (d : Diagnostic) :
    '\n' ∈ d.render.toList ↔ '\n' ∈ d.position.file.text.toList ∨ '\n' ∈ d.message.toList := by
  have hline := Text.lineFeed_not_mem_repr d.position.line
  have hcolumn := Text.lineFeed_not_mem_repr d.position.column
  simp only [render, Position.render, String.toList_append, List.mem_append, hline, hcolumn]
  simp

namespace Report

/-- Each diagnostic of the report has a line of its own in the output. -/
structure OneLineEach (r : Report) : Prop where
  /-- An output is written to as if the lines were appended to it. -/
  written : ∀ out, r.writeTo out = out ++ r.render
  /-- There are as many line feeds as diagnostics. -/
  lineFeeds : r.render.toList.count '\n' = r.diagnostics.length
  /-- A line holds the file, the line, the column and the message of its diagnostic. -/
  line : ∀ (i : Nat) (d : Diagnostic), r.diagnostics[i]? = some d →
    (Text.split '\n' r.render.toList)[i]? =
      some (d.position.file.text ++ ":" ++ Nat.repr d.position.line ++ ":" ++
        Nat.repr d.position.column ++ ": " ++ d.message).toList
  /-- Nothing follows the last line. -/
  ended : (Text.split '\n' r.render.toList).getLast? = some []

/-- Lines without line feeds are the pieces of the output; an empty piece ends it. -/
theorem split_renderLines {ds : List Diagnostic} (h : ∀ d ∈ ds, '\n' ∉ d.render.toList) :
    Text.split '\n' (renderLines ds).toList = (ds.map fun d => d.render.toList) ++ [[]] := by
  induction ds with
  | nil => rfl
  | cons d rest ih =>
    rw [List.forall_mem_cons] at h
    have htext : (renderLines (d :: rest)).toList =
        d.render.toList ++ '\n' :: (renderLines rest).toList := by
      simp [renderLines]
    rw [htext, Text.split_append_sep, Text.split_of_not_mem h.1, ih h.2]
    rfl

/-- **Each diagnostic has a line of its own exactly if no line feed is in a file or a message.** -/
theorem oneLineEach_iff (r : Report) :
    r.OneLineEach ↔
      ∀ d ∈ r.diagnostics, '\n' ∉ d.position.file.text.toList ∧ '\n' ∉ d.message.toList := by
  have hiff : ∀ d : Diagnostic, '\n' ∉ d.render.toList ↔
      '\n' ∉ d.position.file.text.toList ∧ '\n' ∉ d.message.toList := fun d => by
    rw [d.lineFeed_mem_render_iff, not_or]
  constructor
  · intro h d hd
    obtain ⟨i, hi⟩ := List.mem_iff_getElem?.1 hd
    -- a piece holds no separator
    exact (hiff d).1 (Text.not_mem_of_mem_split (List.mem_of_getElem? (h.line i d hi)))
  · intro h
    have hsplit : Text.split '\n' r.render.toList =
        (r.diagnostics.map fun d => d.render.toList) ++ [[]] :=
      split_renderLines fun d hd => (hiff d).2 (h d hd)
    refine ⟨r.writeTo_eq, ?_, ?_, ?_⟩
    · have hlength := Text.length_split '\n' r.render.toList
      rw [hsplit, List.length_append, List.length_map, List.length_singleton] at hlength
      omega
    · intro i d hi
      have hmapped : (r.diagnostics.map fun d => d.render.toList)[i]? = some d.render.toList := by
        rw [List.getElem?_map, hi]
        rfl
      rw [hsplit, List.getElem?_append_left (List.getElem?_eq_some_iff.1 hmapped).1, hmapped]
      rfl
    · rw [hsplit, List.getLast?_concat]

end Report

namespace Analyzer

/-! ## Checks -/

variable {a : Analyzer} {denylist : Denylist} {r : Report}

/-- A check reports stored texts and default wordings, and nothing else. -/
theorem exists_stored_of_mem_diagnostics (hpolicy : a.policy = .check denylist)
    (hr : a.analyze = .ok r) {d : Diagnostic} (hd : d ∈ r.diagnostics) :
    ∃ signature stored, denylist.stored? signature = some stored ∧
      d.message = if stored = "" then Denylist.defaultMessage signature else stored := by
  rcases cases_of_analyze hr with rfl | ⟨m, -, rfl⟩
  · cases hd
  · rw [(perm_diagnostics_report a m).mem_iff, allDiagnostics, List.mem_flatMap] at hd
    obtain ⟨p, -, hd⟩ := hd
    obtain ⟨signature, stored, hforbids, -, hmessage⟩ :=
      (mem_diagnostics_outcome_iff hpolicy d).1 hd
    exact ⟨signature, stored, hforbids.listed, hmessage⟩

/-- **The output of a check has one line for each diagnostic,** if the stored texts and the files
that are reported are of one line each.  Nothing is asked of the signatures. -/
theorem oneLineEach_of_check (hpolicy : a.policy = .check denylist) (hr : a.analyze = .ok r)
    (hfiles : ∀ d ∈ r.diagnostics, '\n' ∉ d.position.file.text.toList)
    (hstored : ∀ signature text, denylist.stored? signature = some text → '\n' ∉ text.toList) :
    r.OneLineEach := by
  refine r.oneLineEach_iff.2 fun d hd => ⟨hfiles d hd, ?_⟩
  obtain ⟨signature, stored, hlisted, hmessage⟩ := exists_stored_of_mem_diagnostics hpolicy hr hd
  rw [hmessage]
  split
  · exact Denylist.lineFeed_not_mem_defaultMessage signature
  · exact hstored signature stored hlisted

/-- Calls of two functions whose names would break a line. -/
def brokenNames : Model where
  symbols := [⟨"f\n\"\x07", ⟨"lib"⟩, .function {}⟩, ⟨"g\r\n", ⟨"lib"⟩, .function {}⟩]
  packages := [{ path := "a", uses := [⟨⟨⟨"a.go"⟩, 2, 1⟩, 0⟩, ⟨⟨⟨"a.go"⟩, 10, 5⟩, 1⟩] }]

/-- Both functions are forbidden, the first one without a message of its own. -/
def brokenNamesDenylist : Denylist :=
  .ofList [("func lib.f\n\"\x07()", ""), ("func lib.g\r\n()", "ask first")]

theorem oneLineEach_of_check_brokenNames :
    (checkOf brokenNames brokenNamesDenylist).policy = .check brokenNamesDenylist ∧
    (∀ signature text, brokenNamesDenylist.stored? signature = some text → '\n' ∉ text.toList) ∧
    ∃ r, (checkOf brokenNames brokenNamesDenylist).analyze = .ok r ∧
      (∀ d ∈ r.diagnostics, '\n' ∉ d.position.file.text.toList) ∧ r.OneLineEach ∧
      r.render = "a.go:2:1: references to \"func lib.f\\n\\\"\\u\x7b7\x7d()\" are not allowed. " ++
        "Remove this reference or whitelist it by adding a comment of the form " ++
        "'// OK: [reason]' to the line before it.\na.go:10:5: ask first\n" := by
  have hstored : ∀ signature text,
      brokenNamesDenylist.stored? signature = some text → '\n' ∉ text.toList := by
    intro signature text h
    have hmem := OrderedMap.mem_of_mem_entries_ofList ((OrderedMap.mem_entries_iff _ _ _).2 h)
    simp only [List.mem_cons, Prod.mk.injEq, List.not_mem_nil, or_false] at hmem
    rcases hmem with ⟨-, rfl⟩ | ⟨-, rfl⟩ <;> decide
  have hr : (checkOf brokenNames brokenNamesDenylist).analyze =
      .ok ((checkOf brokenNames brokenNamesDenylist).report brokenNames) := rfl
  have hfiles : ∀ d ∈ ((checkOf brokenNames brokenNamesDenylist).report brokenNames).diagnostics,
      '\n' ∉ d.position.file.text.toList := by
    decide +kernel
  exact ⟨rfl, hstored, _, hr, hfiles, oneLineEach_of_check rfl hr hfiles hstored, by decide +kernel⟩

end Analyzer

end CallPolicy
