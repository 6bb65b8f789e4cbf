import CallPolicy.Path

/-!
# Source positions

A position is a file, a line and a column.  Positions are ordered by the text of the file, then by
line, then by column; they are *alike* if the files agree component by component, which is coarser:
`a//b.go` and `a/b.go` are alike and differ in the order.
-/

namespace CallPolicy

/-- A place in a source file; lines and columns count from one. -/
structure Position where
  file : Path
  line : Nat
  column : Nat
deriving DecidableEq, Repr, Inhabited

namespace Position

/-- By the text of the file, then by line, then by column. -/
instance : Ord Position :=
  ⟨compareLex (compareOn fun p => p.file.text)
    (compareLex (compareOn fun p => p.line) (compareOn fun p => p.column))⟩

instance : Std.TransOrd Position :=
  inferInstanceAs (Std.TransCmp (compareLex (compareOn fun p : Position => p.file.text)
    (compareLex (compareOn fun p => p.line) (compareOn fun p => p.column))))

/-- Positions that compare equal are written alike. -/
instance : Std.LawfulEqOrd Position where
  eq_of_compare {a b} h := by
    have h' : (compare a.file.text b.file.text).then
        ((compare a.line b.line).then (compare a.column b.column)) = .eq := h
    rw [Ordering.then_eq_eq, Ordering.then_eq_eq] at h'
    obtain ⟨⟨fa⟩, la, ca⟩ := a
    obtain ⟨⟨fb⟩, lb, cb⟩ := b
    have hf := Std.LawfulEqOrd.eq_of_compare h'.1
    have hl := Std.LawfulEqOrd.eq_of_compare h'.2.1
    have hc := Std.LawfulEqOrd.eq_of_compare h'.2.2
    simp_all

/-- The position does not come after the other one. -/
def le (a b : Position) : Bool :=
  (compare a b).isLE

/-- The two positions have the same line and column in files that agree component by component. -/
def alike (a b : Position) : Bool :=
  a.file.components == b.file.components && a.line == b.line && a.column == b.column

/-- The text `file:line:column`. -/
def render (p : Position) : String :=
  p.file.text ++ ":" ++ Nat.repr p.line ++ ":" ++ Nat.repr p.column

end Position

end CallPolicy
