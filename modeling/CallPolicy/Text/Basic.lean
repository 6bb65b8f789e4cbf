/-!
# Text as a list of characters

The operations on text that the rest of the library shares: what stands after or before a given
mark, trimming, cutting at a separator, and cutting into lines.  They work on `List Char`; callers
hold `String` and convert at the edge.

## Termination

Every function is structural in the text it reads.

## Main statements

* `after?_eq_some_iff`, `before?_eq_some_iff` — a mark is found exactly when the text is the mark
  and the rest.
* `trimEnd_eq_iff` — what is cut off at the end of a text.
* `join_split` — cutting at a separator and joining again gives the text back.
-/

namespace CallPolicy.Text

/-! ## Marks at either end -/

/-- What follows `mark` in a text that begins with it. -/
def after? : List Char → List Char → Option (List Char)
  | [], text => some text
  | _ :: _, [] => none
  | m :: mark, c :: text => if m = c then after? mark text else none

theorem after?_eq_some_iff {mark text rest : List Char} :
    after? mark text = some rest ↔ text = mark ++ rest := by
  induction mark generalizing text with
  | nil => simp [after?]
  | cons m mark ih =>
    cases text with
    | nil => simp [after?]
    | cons c text =>
      by_cases h : m = c
      · simp [after?, h, ih]
      · simp [after?, h, Ne.symm h]

/-- What stands before `mark` in a text that ends with it. -/
def before? (mark text : List Char) : Option (List Char) :=
  (after? mark.reverse text.reverse).map List.reverse

theorem before?_eq_some_iff {mark text rest : List Char} :
    before? mark text = some rest ↔ text = rest ++ mark := by
  unfold before?
  rw [Option.map_eq_some_iff]
  constructor
  · rintro ⟨r, hr, rfl⟩
    have h := congrArg List.reverse (after?_eq_some_iff.1 hr)
    simpa using h
  · rintro rfl
    exact ⟨rest.reverse, by simp [after?_eq_some_iff], by simp⟩

/-- What follows the last place where `mark` stands. -/
def afterLast? (mark : List Char) : List Char → Option (List Char)
  | [] => none
  | c :: text => (afterLast? mark text).or (after? mark (c :: text))

/-! ## Trimming -/

/-- The text without the characters at its start for which `p` holds. -/
def trimStart (p : Char → Bool) (text : List Char) : List Char :=
  text.dropWhile p

/-- The text without the characters at its end for which `p` holds. -/
def trimEnd (p : Char → Bool) : List Char → List Char
  | [] => []
  | c :: text =>
    match trimEnd p text with
    | [] => if p c then [] else [c]
    | d :: rest => c :: d :: rest

theorem trimEnd_eq_nil {p : Char → Bool} {text : List Char} (h : ∀ c ∈ text, p c = true) :
    trimEnd p text = [] := by
  induction text with
  | nil => rfl
  | cons c text ih =>
    rw [List.forall_mem_cons] at h
    rw [trimEnd, ih h.2]
    exact if_pos h.1

theorem trimEnd_append {p : Char → Bool} {front tail : List Char}
    (htail : ∀ c ∈ tail, p c = true) (hfront : ∀ c ∈ front.getLast?, p c = false) :
    trimEnd p (front ++ tail) = front := by
  induction front with
  | nil => exact trimEnd_eq_nil htail
  | cons c front ih =>
    cases front with
    | nil =>
      have hc : p c = false := hfront c rfl
      simp [trimEnd, trimEnd_eq_nil htail, hc]
    | cons d front =>
      rw [List.getLast?_cons_cons] at hfront
      rw [List.cons_append, trimEnd, ih hfront]

theorem exists_eq_trimEnd_append (p : Char → Bool) (text : List Char) :
    ∃ tail, text = trimEnd p text ++ tail ∧ (∀ c ∈ tail, p c = true) ∧
      ∀ c ∈ (trimEnd p text).getLast?, p c = false := by
  induction text with
  | nil => exact ⟨[], by simp [trimEnd]⟩
  | cons c text ih =>
    obtain ⟨tail, htext, htail, hlast⟩ := ih
    rw [trimEnd]
    cases hfront : trimEnd p text with
    | nil =>
      rw [hfront, List.nil_append] at htext
      subst htext
      by_cases hc : p c = true
      · exact ⟨c :: text, by simpa [hc] using htail⟩
      · exact ⟨text, by simpa [hc] using htail⟩
    | cons d front =>
      rw [hfront] at htext hlast
      exact ⟨tail, congrArg (c :: ·) htext, htail, hlast⟩

theorem trimEnd_cons {p : Char → Bool} {c : Char} (h : p c = false) (text : List Char) :
    trimEnd p (c :: text) = c :: trimEnd p text := by
  rw [trimEnd]
  cases trimEnd p text with
  | nil => simp [h]
  | cons d rest => rfl

/-- **What is cut off at the end are characters for which `p` holds, and what stays does not end in
one.** -/
theorem trimEnd_eq_iff {p : Char → Bool} {text front : List Char} :
    trimEnd p text = front ↔
      ∃ tail, text = front ++ tail ∧ (∀ c ∈ tail, p c = true) ∧
        ∀ c ∈ front.getLast?, p c = false := by
  constructor
  · rintro rfl
    exact exists_eq_trimEnd_append p text
  · rintro ⟨tail, rfl, htail, hfront⟩
    exact trimEnd_append htail hfront

/-- The text without `mark` at its start, as often as it stands there; the mark is `m :: mark`. -/
def trimMarks (m : Char) (mark : List Char) : Nat → List Char → List Char
  | 0, text => text
  | bound + 1, text =>
    match after? (m :: mark) text with
    | some rest => trimMarks m mark bound rest
    | none => text

/-! ## Cutting and joining -/

/-- The pieces between the separators; a text without a separator is one piece. -/
def split (sep : Char) : List Char → List (List Char)
  | [] => [[]]
  | c :: text =>
    if c = sep then [] :: split sep text
    else
      match split sep text with
      | [] => [[c]]
      | piece :: pieces => (c :: piece) :: pieces

/-- The pieces with one separator between neighbours. -/
def join (sep : Char) : List (List Char) → List Char
  | [] => []
  | [piece] => piece
  | piece :: next :: pieces => piece ++ sep :: join sep (next :: pieces)

theorem split_ne_nil (sep : Char) (text : List Char) : split sep text ≠ [] := by
  cases text with
  | nil => simp [split]
  | cons c text =>
    unfold split
    split
    · simp
    · split <;> simp

/-- Cutting at a separator loses nothing. -/
theorem join_split (sep : Char) (text : List Char) : join sep (split sep text) = text := by
  induction text with
  | nil => rfl
  | cons c text ih =>
    cases h : split sep text with
    | nil => exact absurd h (split_ne_nil sep text)
    | cons piece pieces =>
      rw [h] at ih
      by_cases hc : c = sep
      · simp [split, hc, h, join, ih]
      · cases pieces with
        | nil => simp_all [split, join]
        | cons next pieces => simp_all [split, join]

/-! ## Lines -/

/-- The line without one carriage return at its end. -/
def dropReturn (line : List Char) : List Char :=
  (before? ['\r'] line).getD line

/-- The lines among the pieces between line feeds: a piece that a line feed ends loses one
carriage return before it, and an empty last piece is no line. -/
def linesOfPieces : List (List Char) → List (List Char)
  | [] => []
  | [last] => if last.isEmpty then [] else [last]
  | piece :: next :: pieces => dropReturn piece :: linesOfPieces (next :: pieces)

/-- The lines of a text. -/
def lines (text : List Char) : List (List Char) :=
  linesOfPieces (split '\n' text)

end CallPolicy.Text
