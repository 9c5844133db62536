import RemoteSigning.Json.Fault
import RemoteSigning.Json.Value
import RemoteSigning.Text.Utf8
/-!
# Numbers in JSON text

`readNumber` finds the extent of a number; `NumberText.value` gives its value. A number that is no
exact integer is computed from its first digits, those that fit into sixty-four bits, by one rounded
multiplication or division with a power of ten, so its last bit may differ from the nearest binary64
number.
-/

namespace RemoteSigning.Json

open Number Text

/-- The parts of a number as written. -/
structure NumberText where
  /-- Whether a minus sign stands in front. -/
  negative : Bool
  /-- The digits before the point. -/
  whole : List Nat
  /-- The digits after the point, if there is one. -/
  fraction : Option (List Nat)
  /-- The sign and the digits of the exponent, if there is one. -/
  exponent : Option (Bool × List Nat)
deriving DecidableEq, Repr

def digit? (c : Option Char) : Option Nat :=
  match c with
  | some c => if '0' ≤ c && c ≤ '9' then some (c.toNat - 48) else none
  | none => none

/-- The digits at the start of a source, and what follows. -/
def readDigits : Source → List Nat × Source
  | [] => ([], [])
  | c :: rest =>
    match digit? c with
    | some d => let (ds, rest') := readDigits rest; (d :: ds, rest')
    | none => ([], c :: rest)

/-- How a number fails: what a reader of its value reports, and what one that skips it reports. They
differ only where the text ends. -/
def numberCut (rest : Source) : Fault × Fault :=
  if rest.isEmpty then (.cutValue, .badNumber) else (.badNumber, .badNumber)

/-- Reads the exponent, if there is one. -/
def readExponent (source : Source) :
    Except (Fault × Fault) (Option (Bool × List Nat) × Source) :=
  match source with
  | some 'e' :: rest | some 'E' :: rest =>
    let (negative, rest) :=
      match rest with
      | some '+' :: rest => (false, rest)
      | some '-' :: rest => (true, rest)
      | _ => (false, rest)
    match readDigits rest with
    | ([], rest) => .error (numberCut rest)
    | (digits, rest) => .ok (some (negative, digits), rest)
  | _ => .ok (none, source)

/-- Reads the digits after the point, if there is one. -/
def readFraction (source : Source) : Except (Fault × Fault) (Option (List Nat) × Source) :=
  match source with
  | some '.' :: rest =>
    match readDigits rest with
    | ([], rest) => .error (numberCut rest)
    | (digits, rest) => .ok (some digits, rest)
  | _ => .ok (none, source)

/-- Reads a number. A zero at its start is the only digit before the point. -/
def readNumber (source : Source) : Except (Fault × Fault) (NumberText × Source) := do
  let (negative, rest) :=
    match source with
    | some '-' :: rest => (true, rest)
    | _ => (false, source)
  let (whole, rest) ←
    match readDigits rest with
    | ([], rest) => .error (numberCut rest)
    | (0 :: _ :: _, _) => .error (.badNumber, .badNumber)
    | (digits, rest) => .ok (digits, rest)
  let (fraction, rest) ← readFraction rest
  let (exponent, rest) ← readExponent rest
  return (⟨negative, whole, fraction, exponent⟩, rest)

/-- Appends digits to a significand as long as it stays below `2 ^ 64`; the digits left over are
returned too. -/
def accumulate (significand : Nat) : List Nat → Nat × List Nat
  | [] => (significand, [])
  | d :: rest =>
    if significand * 10 + d < 2 ^ 64 then accumulate (significand * 10 + d) rest
    else (significand, d :: rest)

/-- The greatest power of ten that is multiplied or divided by at once. -/
def greatestPower : Nat := 308

/-- `x · 10 ^ e`, by division through the greatest power of ten until the rest is in its range. -/
def scaleByTen (x : Binary64) (e : Int) : Except Fault Binary64 :=
  match Binary64.powerOfTen (min e.natAbs greatestPower) with
  | none => .error .hugeNumber
  | some power =>
    if e.natAbs ≤ greatestPower then
      match if 0 ≤ e then x.mul power else x.div power with
      | some y => .ok y
      | none => .error .hugeNumber
    else if x.isZero then .ok x
    else if 0 ≤ e then .error .hugeNumber
    else
      match x.div power with
      | some y => scaleByTen y (e + greatestPower)
      | none => .error .hugeNumber
termination_by e.natAbs
decreasing_by simp only [greatestPower] at *; omega

/-- The greatest exponent that is taken at its value. -/
def exponentLimit : Nat := 2 ^ 31 - 1

/-- The value of digits, or `none` if it exceeds the greatest exponent. -/
def exponentValue (digits : List Nat) : Option Nat :=
  digits.foldl (fun n? d => do
    let n ← n?
    if n * 10 + d ≤ exponentLimit then some (n * 10 + d) else none) (some 0)

/-- The fault of an exponent that exceeds the greatest one, which shows at one of its digits. -/
def exponentFault (digits : List Nat) : Fault :=
  if (exponentValue digits.dropLast).isSome then .hugeNumber else .hugeExponent

/-- The real number with a significand and a power of ten. -/
def realOf (negative : Bool) (significand : Nat) (e : Int) : Except Fault Numeral := do
  let some x := Binary64.ofNat significand | throw .hugeNumber
  let y ← scaleByTen x e
  return .real { y with negative }

/-- The number of an integer literal: exact if it is in range, and minus zero is no integer. -/
def integerOf (negative : Bool) (n : Nat) : Except Fault Numeral :=
  if negative then
    if 0 < n ∧ n ≤ 2 ^ 63 then .ok (.integer (-n)) else realOf true n 0
  else .ok (.integer n)

/-- The value of a number. Digits that do not fit into the significand count as zeros. -/
def NumberText.value (t : NumberText) : Except Fault Numeral :=
  let (significand, surplus) := accumulate 0 t.whole
  match t.fraction, t.exponent, surplus with
  | none, none, [] => integerOf t.negative significand
  | _, _, _ =>
    let fraction := t.fraction.getD []
    let (significand, unused) := accumulate significand fraction
    let e : Int := (surplus.length : Int) - (fraction.length - unused.length : Nat)
    match t.exponent with
    | none => realOf t.negative significand e
    | some (negative, digits) =>
      match exponentValue digits with
      | some n => realOf t.negative significand (if negative then e - n else e + n)
      | none =>
        if significand ≠ 0 ∧ !negative then .error (exponentFault digits)
        else .ok (.real (Binary64.zero t.negative))

end RemoteSigning.Json
