/-!
# Decimal numbers in settings
-/

namespace RemoteSigning.Number

/-- The value of decimal digits, or `none` if there is another character. -/
def ofDecimalDigits? (cs : List Char) : Option Nat :=
  cs.foldlM (fun n c => if c.isDigit then some (n * 10 + (c.toNat - 48)) else none) 0

/-- Reads a natural number below a bound. A plus sign and zeros may stand in front. -/
def natBelow? (bound : Nat) (text : String) : Option Nat := do
  let digits := match text.toList with
    | '+' :: rest => rest
    | cs => cs
  if digits.isEmpty then none
  let n ← ofDecimalDigits? digits
  if n < bound then some n else none

end RemoteSigning.Number
