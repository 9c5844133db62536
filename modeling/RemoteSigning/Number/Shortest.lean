import RemoteSigning.Number.Binary64
/-!
# Shortest decimal digits

The fewest decimal digits that read back as a given binary64 number. Of the grids `d · 10 ^ p` with
integer `d`, the coarsest that has a point among the reals that round to the number is taken, and on
it the point nearest to the number, the even one of two.
-/

namespace RemoteSigning.Number

/-- The decimal `digits · 10 ^ exponent`. -/
structure Decimal where
  digits : Nat
  exponent : Int
deriving DecidableEq, Repr

/-- The reals between `low / scale` and `high / scale` around `value / scale`, with the ends if
`closed`. -/
structure Neighbourhood where
  low : Nat
  value : Nat
  high : Nat
  scale : Nat
  closed : Bool
deriving DecidableEq, Repr

/-- The reals that round to the magnitude of a number. Below a power of two the spacing is half as
wide; the ends round to the number if its significand is even. -/
def Binary64.neighbourhood (x : Binary64) : Neighbourhood :=
  let below := if x.significand = 2 ^ 52 ∧ x.exponent ≠ minExponent then 1 else 2
  let (unit, scale) := scaled 1 (x.exponent - 2)
  { low := (4 * x.significand - below) * unit
    value := 4 * x.significand * unit
    high := (4 * x.significand + 2) * unit
    scale
    closed := x.significand % 2 = 0 }

/-- Whether `n / d` lies in the neighbourhood. -/
def Neighbourhood.contains (v : Neighbourhood) (n d : Nat) : Bool :=
  if v.closed then v.low * d ≤ n * v.scale && n * v.scale ≤ v.high * d
  else v.low * d < n * v.scale && n * v.scale < v.high * d

/-- The point of the grid of `10 ^ p` that is nearest to the value among the two around it, if it
lies in the neighbourhood. -/
def Neighbourhood.pointOn? (v : Neighbourhood) (p : Int) : Option Nat :=
  -- `up / down` is `10 ^ p`.
  let (up, down) := if 0 ≤ p then (10 ^ p.toNat, 1) else (1, 10 ^ (-p).toNat)
  let num := v.value * down
  let den := v.scale * up
  let floor := num / den
  let near := Binary64.divNearestEven num den
  let far := if near = floor then floor + 1 else floor
  let inside (k : Nat) : Bool := 0 < k && v.contains (k * up) down
  if inside near then some near else if inside far then some far else none

/-- Tries ever finer grids, starting from `10 ^ p`. -/
def Neighbourhood.search (v : Neighbourhood) : Nat → Int → Option Decimal
  | 0, _ => none
  | n + 1, p =>
    match v.pointOn? p with
    | some k => some ⟨k, p⟩
    | none => v.search n (p - 1)

/-- The shortest decimal that reads back as the magnitude of a number. Seventeen digits always
suffice, so the search covers nineteen grids below the number's own magnitude. -/
def Binary64.shortest (x : Binary64) : Decimal :=
  if x.isZero then ⟨0, 0⟩
  else
    -- `log10 2` is a little below `30103 / 100000`; the estimate is at most one grid too coarse.
    let bits : Int := (Nat.log2 x.significand : Int) + x.exponent
    let start : Int := Int.fdiv (bits * 30103) 100000 + 1
    (x.neighbourhood.search 20 start).getD ⟨0, 0⟩

/-- The decimal without zeros at the end of its digits. -/
def Decimal.trimmed (d : Decimal) : Decimal :=
  go 20 d
where
  /-- Drops at most `n` zeros. -/
  go : Nat → Decimal → Decimal
    | 0, d => d
    | n + 1, d =>
      if d.digits ≠ 0 ∧ d.digits % 10 = 0 then go n ⟨d.digits / 10, d.exponent + 1⟩ else d

end RemoteSigning.Number
