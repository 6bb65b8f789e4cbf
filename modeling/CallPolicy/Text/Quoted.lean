import CallPolicy.Text.Hidden

/-!
# Quoted text

A text between double quotes, as error messages show it.  The quote and the backslash are escaped,
so are tab, line feed, carriage return and NUL; a hidden character is written by its number in
hexadecimal digits; every other character stands for itself.

Main statement: `lineFeed_not_mem_quoteChar` — a quoted character never brings a line feed, so a
quoted text stays on one line.
-/

namespace CallPolicy.Text

/-- The digits of a number in base sixteen, lower case, without leading zeros. -/
def hexDigits (n : Nat) : List Char :=
  Nat.toDigits 16 n

/-- One character inside the quotes. -/
def quoteChar (c : Char) : List Char :=
  if c = '"' then ['\\', '"']
  else if c = '\\' then ['\\', '\\']
  else if c = '\t' then ['\\', 't']
  else if c = '\n' then ['\\', 'n']
  else if c = '\r' then ['\\', 'r']
  else if c = '\x00' then ['\\', '0']
  else if isHidden c then ['\\', 'u', '\x7b'] ++ hexDigits c.toNat ++ ['\x7d']
  else [c]

/-- A number in base sixteen holds no line feed. -/
theorem lineFeed_not_mem_hexDigits (n : Nat) : '\n' ∉ hexDigits n := by
  unfold hexDigits
  induction n using Nat.strongRecOn with
  | ind n ih =>
    by_cases h : n < 16
    · have hall : ∀ m ∈ List.range 16, '\n' ∉ Nat.toDigits 16 m := by decide
      exact hall n (List.mem_range.mpr h)
    · rw [Nat.toDigits_of_base_le (by decide) (by omega)]
      have hall : ∀ m ∈ List.range 16, '\n' ≠ Nat.digitChar m := by decide
      have hlast := hall (n % 16) (List.mem_range.mpr (Nat.mod_lt _ (by decide)))
      simp [ih (n / 16) (by omega), hlast]

/-- A quoted character never brings a line feed. -/
theorem lineFeed_not_mem_quoteChar (c : Char) : '\n' ∉ quoteChar c := by
  unfold quoteChar
  split
  · decide
  split
  · decide
  split
  · decide
  split
  · decide
  next hfeed =>
    split
    · decide
    split
    · decide
    split
    · simp [lineFeed_not_mem_hexDigits]
    · simpa using Ne.symm hfeed

/-- The characters of a quoted text, quotes included. -/
def quoteChars (text : List Char) : List Char :=
  '"' :: text.flatMap quoteChar ++ ['"']

/-- The quoted form of a text. -/
def quote (text : String) : String :=
  String.ofList (quoteChars text.toList)

/-- The quoted forms of several texts, between brackets. -/
def quoteList (texts : List String) : String :=
  "[" ++ ", ".intercalate (texts.map quote) ++ "]"

end CallPolicy.Text
