import CallPolicy.Decimal

/-!
# Numbers in JSON

A number without sign, point and exponent is a natural number of any size.  Every other number is
kept as it is written; of such a number only one thing is ever asked, namely whether it is in the
range of double precision.

That question is settled as a reader settles it that gathers digits in a 64-bit word: on either side
of the point, digits are dropped from the first one that would not fit, and a digit dropped before
the point counts as a power of ten; the word and the power of ten are rounded to 53 bits each, and
so is their product.
-/

namespace CallPolicy.Json

/-- A number with a sign, a point or an exponent, as it is written. -/
structure Numeral where
  negative : Bool
  whole : List Char
  /-- The digits after the point; empty if there is no point. -/
  fraction : List Char
  /-- Whether the exponent is negative, and its digits. -/
  exponent : Option (Bool × List Char)
deriving DecidableEq, Repr

/-- A number. -/
inductive Number where
  /-- Digits alone. -/
  | natural (value : Nat)
  /-- Anything else. -/
  | numeral (form : Numeral)
deriving DecidableEq, Repr

/-! ## The range of double precision -/

/-- Gathers digits into a word as long as they fit, and returns how many were gathered. -/
def gather : Nat → List Char → Nat × Nat
  | word, [] => (word, 0)
  | word, c :: digits =>
    if word * 10 + Decimal.digitValue c ≤ Decimal.maxWord then
      let (word', taken) := gather (word * 10 + Decimal.digitValue c) digits
      (word', taken + 1)
    else (word, 0)

/-- The product of a word and a power of ten is below the point where rounding leaves the range. -/
def inRangeScaled (word : Nat) (power : Int) : Bool :=
  if word = 0 || power < 0 then true
  else if power > 308 then false
  else Decimal.round53 word * Decimal.round53 (Nat.pow 10 power.toNat) < Decimal.rangeEnd

/-- A number in range, given by its digits before and after the point and its exponent; an exponent
that is not a 31-bit number settles the matter by its sign. -/
def inRangeDigits (whole fraction : List Char) (exponent : Option (Bool × List Char)) : Bool :=
  let (word, takenBefore) := gather 0 whole
  let (word, takenAfter) := gather word fraction
  let power : Int := (whole.length - takenBefore : Nat) - (takenAfter : Int)
  match exponent with
  | none => inRangeScaled word power
  | some (below, digits) =>
    if Nat.pow 2 31 ≤ Decimal.value digits then below || word = 0
    else if below then inRangeScaled word (power - Decimal.value digits)
    else inRangeScaled word (power + Decimal.value digits)

/-- The number is in the range of double precision. -/
def Number.inRange : Number → Bool
  | .natural value => value ≤ Decimal.maxWord || inRangeDigits (Nat.toDigits 10 value) [] none
  | .numeral form => inRangeDigits form.whole form.fraction form.exponent

end CallPolicy.Json
