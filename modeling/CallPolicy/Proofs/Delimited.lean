import CallPolicy.Text.Basic

/-!
# Texts that tell where they end

Two texts that are equal as a whole are compared piece by piece.  A run of characters of one class
ends where the class does, and an item of a list ends at a *stop*: a separator or a closing bracket.
If each item can be told from what follows it, so can the list.

## Main statements

* `run_inj` — a run of characters of one class is told from what follows.
* `intercalate_inj` — a list in brackets is told from what follows.
-/

namespace CallPolicy.Text

/-! ## Runs -/

/-- A run of characters of one class ends where the class does. -/
theorem span_run {p : Char → Bool} {a x : List Char} (ha : ∀ c ∈ a, p c = true)
    (hx : ∀ c, x.head? = some c → p c = false) :
    (a ++ x).takeWhile p = a ∧ (a ++ x).dropWhile p = x := by
  induction a with
  | nil =>
    cases x with
    | nil => exact ⟨rfl, rfl⟩
    | cons c x =>
      have hc : p c = false := hx c rfl
      simp [hc]
  | cons c a ih =>
    have hc : p c = true := ha c List.mem_cons_self
    obtain ⟨htake, hdrop⟩ := ih fun c hc => ha c (List.mem_cons_of_mem _ hc)
    simp [hc, htake, hdrop]

/-- A character outside the class ends a run. -/
theorem head?_cons_eq_false {p : Char → Bool} {c : Char} (hc : p c = false) (text : List Char) :
    ∀ d, (c :: text).head? = some d → p d = false := by
  intro d hd
  have hcd : c = d := by simpa using hd
  rw [← hcd]
  exact hc

/-- A run of characters of one class is told from what follows. -/
theorem run_inj {p : Char → Bool} {a b x y : List Char} (ha : ∀ c ∈ a, p c = true)
    (hb : ∀ c ∈ b, p c = true) (hx : ∀ c, x.head? = some c → p c = false)
    (hy : ∀ c, y.head? = some c → p c = false) (h : a ++ x = b ++ y) : a = b ∧ x = y := by
  obtain ⟨htake, hdrop⟩ := span_run ha hx
  obtain ⟨htake', hdrop'⟩ := span_run hb hy
  rw [h] at htake hdrop
  exact ⟨htake.symm.trans htake', hdrop.symm.trans hdrop'⟩

/-! ## Stops -/

/-- The character ends an item of a list. -/
def isStop (c : Char) : Bool :=
  c == ',' || c == ';' || c == ')' || c == ']' || c == '}'

/-- Nothing follows, or a stop does. -/
def Stops (text : List Char) : Prop :=
  ∀ c, text.head? = some c → isStop c = true

theorem stops_nil : Stops [] := fun _ h => nomatch h

theorem stops_cons {c : Char} (h : isStop c = true) (text : List Char) : Stops (c :: text) := by
  intro d hd
  have hcd : c = d := by simpa using hd
  rw [← hcd]
  exact h

/-- A text that begins with a character that is no stop is not what follows an item. -/
theorem not_stops_cons {c : Char} (h : isStop c = false) (text : List Char) :
    ¬Stops (c :: text) := by
  intro hstops
  have hc := hstops c rfl
  rw [h] at hc
  cases hc

/-- Some character begins the text, and it is no stop. -/
def Opens (text : List Char) : Prop :=
  ∃ c rest, text = c :: rest ∧ isStop c = false

/-! ## Lists in brackets -/

section Lists

variable {α β : Type} {text : α → List Char} {sep close : Char}

theorem intercalate_cons_append (text : α → List Char) (sep : Char) (x : α) (xs : List α)
    (rest : List Char) :
    [sep, ' '].intercalate ((x :: xs).map text) ++ rest =
      text x ++ (match xs with
        | [] => rest
        | x' :: xs' => sep :: ' ' :: ([sep, ' '].intercalate ((x' :: xs').map text) ++ rest)) := by
  cases xs with
  | nil => simp
  | cons x' xs' => simp

/-- **A list in brackets is told from what follows,** if each of its items is.  The items need not
be told apart themselves, only their keys. -/
theorem intercalate_inj (key : α → β) (hsep : isStop sep = true) (hclose : isStop close = true)
    (hne : sep ≠ close) {xs ys : List α} {r r' : List Char} (hxs : ∀ x ∈ xs, Opens (text x))
    (hys : ∀ y ∈ ys, Opens (text y))
    (hitem : ∀ x ∈ xs, ∀ y ∈ ys, ∀ r r', Stops r → Stops r' →
      text x ++ r = text y ++ r' → key x = key y ∧ r = r')
    (h : [sep, ' '].intercalate (xs.map text) ++ close :: r =
      [sep, ' '].intercalate (ys.map text) ++ close :: r') :
    xs.map key = ys.map key ∧ r = r' := by
  induction xs generalizing ys with
  | nil =>
    cases ys with
    | nil => exact ⟨rfl, by simpa using h⟩
    | cons y ys =>
      obtain ⟨c, rest, hy, hc⟩ := hys y List.mem_cons_self
      rw [intercalate_cons_append, hy] at h
      injection h with hcc
      rw [← hcc, hclose] at hc
      cases hc
  | cons x xs ih =>
    cases ys with
    | nil =>
      obtain ⟨c, rest, hx, hc⟩ := hxs x List.mem_cons_self
      rw [intercalate_cons_append, hx] at h
      injection h with hcc
      rw [hcc, hclose] at hc
      cases hc
    | cons y ys =>
      have hfirst := hitem x List.mem_cons_self y List.mem_cons_self
      rw [intercalate_cons_append, intercalate_cons_append] at h
      cases xs with
      | nil =>
        cases ys with
        | nil =>
          obtain ⟨hkey, hrest⟩ := hfirst _ _ (stops_cons hclose _) (stops_cons hclose _) h
          injection hrest with _ hrest
          exact ⟨by simp [hkey], hrest⟩
        | cons y' ys =>
          obtain ⟨-, hrest⟩ := hfirst _ _ (stops_cons hclose _) (stops_cons hsep _) h
          injection hrest with hcs
          exact absurd hcs.symm hne
      | cons x' xs =>
        cases ys with
        | nil =>
          obtain ⟨-, hrest⟩ := hfirst _ _ (stops_cons hsep _) (stops_cons hclose _) h
          injection hrest with hcs
          exact absurd hcs hne
        | cons y' ys =>
          obtain ⟨hkey, hrest⟩ := hfirst _ _ (stops_cons hsep _) (stops_cons hsep _) h
          injection hrest with _ hrest
          injection hrest with _ hrest
          obtain ⟨hkeys, hr⟩ := ih (fun x hx => hxs x (List.mem_cons_of_mem _ hx))
            (fun y hy => hys y (List.mem_cons_of_mem _ hy))
            (fun x hx y hy => hitem x (List.mem_cons_of_mem _ hx) y (List.mem_cons_of_mem _ hy))
            hrest
          exact ⟨List.cons_eq_cons.2 ⟨hkey, hkeys⟩, hr⟩

end Lists

end CallPolicy.Text
