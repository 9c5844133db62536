import RemoteSigning.Text.Hex
/-!
# Internet addresses of version 6

Eight numbers of up to four hexadecimal digits between colons. Two colons stand once for any number
of zeros, and the last two numbers may be written as an address of version 4.
-/

namespace RemoteSigning.Url.Ipv6

open Text

/-- The numbers read so far. -/
structure Progress where
  /-- The numbers, last one first. -/
  reversed : List Nat := []
  /-- How many numbers stand before the gap, if there was one. -/
  gap : Option Nat := none
deriving DecidableEq, Repr

/-- Reads up to `width` digits. -/
def readDigits (n : Nat) : Nat → List Char → Nat × List Char
  | 0, cs => (n, cs)
  | _, [] => (n, [])
  | width + 1, c :: cs =>
    match Hex.digit? c with
    | some d => readDigits (n * 16 + d) width cs
    | none => (n, c :: cs)

/-- Reads a decimal number below 256 without a leading zero. -/
def octet? (cs : List Char) : Option Nat :=
  match cs with
  | ['0'] => some 0
  | c :: cs =>
    if c.isDigit && c != '0' && cs.all Char.isDigit && cs.length ≤ 2 then
      let n := (c :: cs).foldl (fun n c => n * 10 + (c.toNat - 48)) 0
      if n ≤ 255 then some n else none
    else none
  | [] => none

/-- Reads an address of version 4 as two numbers. -/
def tail? (cs : List Char) : Option (Nat × Nat) :=
  match (cs.splitOn '.').mapM octet? with
  | some [a, b, c, d] => some (a * 256 + b, c * 256 + d)
  | _ => none

/-- Reads numbers until the end of the text. -/
def read (fuel : Nat) (p : Progress) (cs : List Char) : Option Progress :=
  match fuel, cs with
  | 0, _ => none
  | _, [] => some p
  | fuel + 1, cs =>
    if p.reversed.length + p.gap.elim 0 (fun _ => 1) ≥ 8 then none
    else
      match cs with
      | ':' :: rest =>
        if p.gap.isSome then none
        else read fuel { p with gap := some p.reversed.length } rest
      | _ =>
        let (n, rest) := readDigits 0 4 cs
        match rest with
        | '.' :: _ =>
          if rest.length = cs.length || 6 < p.reversed.length + p.gap.elim 0 (fun _ => 1) then none
          else do
            let (a, b) ← tail? cs
            return { p with reversed := b :: a :: p.reversed }
        | ':' :: more =>
          if more.isEmpty then none
          else read fuel { p with reversed := n :: p.reversed } more
        | [] => some { p with reversed := n :: p.reversed }
        | _ => none

def Progress.fill (p : Progress) : Option (List Nat) :=
  let ns := p.reversed.reverse
  match p.gap with
  | some k => some (ns.take k ++ List.replicate (8 - ns.length) 0 ++ ns.drop k)
  | none => if ns.length = 8 then some ns else none

/-- Reads an address, without brackets. A colon in front must be one of two. -/
def ofText? (cs : List Char) : Option (List Nat) :=
  match cs with
  | ':' :: ':' :: rest => (read (cs.length + 1) { gap := some 0 } rest).bind Progress.fill
  | ':' :: _ => none
  | [] => none
  | [_] => none
  | cs => (read (cs.length + 1) {} cs).bind Progress.fill

def leadingZeros (ns : List Nat) : Nat := (ns.takeWhile (· == 0)).length

/-- Where the first longest run of zeros begins and how long it is; `at'` counts the numbers before
`ns`. -/
def longestRun (at' : Nat) : List Nat → Nat × Nat
  | [] => (at', 0)
  | n :: ns =>
    let here := leadingZeros (n :: ns)
    let later := longestRun (at' + 1) ns
    if later.2 ≤ here then (at', here) else later

def colons (ns : List Nat) : List Char := [':'].intercalate (ns.map Hex.ofNat)

/-- The address as it is written: two or more zeros are left out once. -/
def text (ns : List Nat) : String :=
  let (start, length) := longestRun 0 ns
  String.ofList <|
    if length < 2 then colons ns
    else colons (ns.take start) ++ ':' :: ':' :: colons (ns.drop (start + length))

end RemoteSigning.Url.Ipv6
