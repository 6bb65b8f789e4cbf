/-!
# Decimal digits

The value of decimal digits, the largest 64-bit word, and the range of double precision.
-/

namespace CallPolicy.Decimal

/-- The value of a digit. -/
def digitValue (c : Char) : Nat :=
  c.toNat - '0'.toNat

/-- The value of decimal digits. -/
def value (digits : List Char) : Nat :=
  digits.foldl (fun n c => 10 * n + digitValue c) 0

/-- The largest 64-bit word. -/
def maxWord : Nat := 18446744073709551615

/-- The nearest number of 53 significant bits; a tie goes to the even one. -/
def round53 (n : Nat) : Nat :=
  if n < Nat.pow 2 53 then n
  else
    let unit := Nat.pow 2 (n.log2 - 52)
    let down := n / unit
    let rest := n % unit
    if 2 * rest < unit || (2 * rest = unit && down % 2 = 0) then down * unit
    else (down + 1) * unit

/-- The least number that is rounded to infinity: half a unit above the largest finite one. -/
def rangeEnd : Nat := Nat.pow 2 1024 - Nat.pow 2 970

/-- The number `digits · 10 ^ power` is rounded to infinity.  Its number of digits settles the
matter unless it is near that of the end of the range. -/
def overflows (digits : Nat) (power : Int) : Bool :=
  if digits = 0 then false
  else
    let size : Int := (Nat.toDigits 10 digits).length + power
    if size > 400 then true
    else if size < 300 then false
    else if 0 ≤ power then rangeEnd ≤ digits * Nat.pow 10 power.toNat
    else rangeEnd * Nat.pow 10 (-power).toNat ≤ digits

end CallPolicy.Decimal
