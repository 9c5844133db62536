import RemoteSigning.Number.Power
/-!
# Binary64 numbers

Finite binary64 numbers as a sign, a significand and a power of two, with correctly rounded
arithmetic in exact integers. A result that is too large is `none`.
-/

namespace RemoteSigning.Number

/-- The finite number `± significand · 2 ^ exponent`. In canonical form the significand is below
`2 ^ 53`, the exponent is at least `-1074`, and the significand is at least `2 ^ 52` unless the
exponent is `-1074`. -/
structure Binary64 where
  /-- Whether the number carries a minus sign; zero has both. -/
  negative : Bool
  significand : Nat
  exponent : Int
deriving DecidableEq, Repr

namespace Binary64

/-- The least exponent. -/
def minExponent : Int := -1074

def maxExponent : Int := 971

def zero (negative : Bool) : Binary64 := ⟨negative, 0, minExponent⟩

/-- Whether the number is zero. -/
def isZero (x : Binary64) : Bool := x.significand == 0

def neg (x : Binary64) : Binary64 := { x with negative := !x.negative }

/-- `num / den` rounded to the nearest integer, ties to the even one. -/
def divNearestEven (num den : Nat) : Nat :=
  let q := num / den
  let r := num % den
  if 2 * r < den then q
  else if den < 2 * r then q + 1
  else q + q % 2

/-- `a · 2 ^ e` as a fraction of integers. -/
def scaled (a : Nat) (e : Int) : Nat × Nat :=
  if 0 ≤ e then (a * 2 ^ e.toNat, 1) else (a, 2 ^ (-e).toNat)

/-- The exponent for a positive fraction: the integer part of `num / den / 2 ^ e` has fifty-three
bits, unless `e` is the least exponent. -/
def exponentOf (num den : Nat) : Int :=
  let guess : Int := (Nat.log2 num : Int) - Nat.log2 den - 52
  -- The quotient of the leading powers may be one too large.
  let (n, d) := scaled num (-guess)
  let e := if n < 2 ^ 52 * d * den then guess - 1 else guess
  max e minExponent

/-- The number nearest to `num / den`, ties to the even significand; `none` if it is too large. -/
def ofFraction (negative : Bool) (num den : Nat) : Option Binary64 :=
  if num = 0 then some (zero negative)
  else
    let e := exponentOf num den
    let (n, d) := scaled num (-e)
    let s := divNearestEven n (d * den)
    let (s, e) := if s = 2 ^ 53 then (2 ^ 52, e + 1) else (s, e)
    if maxExponent < e then none else some ⟨negative, s, e⟩

def ofNat (n : Nat) : Option Binary64 := ofFraction false n 1

def powerOfTen (k : Nat) : Option Binary64 := ofNat (10 ^ k)

def mul (x y : Binary64) : Option Binary64 :=
  let (n, d) := scaled (x.significand * y.significand) (x.exponent + y.exponent)
  ofFraction (x.negative != y.negative) n d

/-- The quotient, correctly rounded, for a divisor that is not zero. -/
def div (x y : Binary64) : Option Binary64 :=
  let (n, d) := scaled x.significand (x.exponent - y.exponent)
  ofFraction (x.negative != y.negative) n (d * y.significand)

end Binary64

end RemoteSigning.Number
