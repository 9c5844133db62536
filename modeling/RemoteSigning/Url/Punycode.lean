/-!
# Punycode

The ASCII form of a label of a domain. The ASCII characters come first; then follow, in the order of
their code points, the positions of all others, each as the distance from the one before it.
-/

namespace RemoteSigning.Url.Punycode

/-- The digits: letters, then the decimal digits. -/
def digit (n : Nat) : Char := if n < 26 then Char.ofNat (97 + n) else Char.ofNat (22 + n)

def value? (c : Char) : Option Nat :=
  if c.isLower then some (c.toNat - 97)
  else if c.isDigit then some (c.toNat - 22)
  else none

/-- The weight from which on a digit is not the last one. -/
def threshold (position bias : Nat) : Nat := max 1 (min 26 (position - bias))

/-- Scales a distance down until the digits have room for it. -/
def scaleDown (distance position : Nat) : Nat :=
  if 455 < distance then scaleDown (distance / 35) (position + 36)
  else position + 36 * distance / (distance + 38)
termination_by distance
decreasing_by exact Nat.div_lt_self (by omega) (by omega)

/-- The bias after a distance, when `count` characters are in place. -/
def adapt (distance count : Nat) (first : Bool) : Nat :=
  let distance := if first then distance / 700 else distance / 2
  scaleDown (distance + distance / count) 0

def writeDistance (bias position distance : Nat) : List Char :=
  let t := threshold position bias
  if distance < t then [digit distance]
  else
    digit (t + (distance - t) % (36 - t))
      :: writeDistance bias (position + 36) ((distance - t) / (36 - t))
termination_by distance
decreasing_by
  have : 1 ≤ threshold position bias := Nat.le_max_left ..
  exact Nat.lt_of_le_of_lt (Nat.div_le_self ..) (by omega)

/-- What has been written. -/
structure Writing where
  distance : Nat := 0
  bias : Nat := 72
  count : Nat
  text : List Char

/-- Passes a character on the way to the next one with the code point `point`. -/
def Writing.pass (first point : Nat) (w : Writing) (c : Char) : Writing :=
  if c.toNat < point then { w with distance := w.distance + 1 }
  else if c.toNat = point then
    { distance := 0
      bias := adapt w.distance (w.count + 1) (w.count == first)
      count := w.count + 1
      text := w.text ++ writeDistance w.bias 36 w.distance }
  else w

/-- Writes the positions of characters with the given code points, which ascend from `next` on. -/
def writeAll (label : List Char) (first next : Nat) (w : Writing) : List Nat → Writing
  | [] => w
  | point :: rest =>
    let w := { w with distance := w.distance + (point - next) * (w.count + 1) }
    let w := label.foldl (Writing.pass first point) w
    writeAll label first (point + 1) { w with distance := w.distance + 1 } rest

/-- Whether a character is ASCII. -/
def isAscii (c : Char) : Bool := c.toNat < 128

def encode (label : List Char) : List Char :=
  let ascii := label.filter isAscii
  let points := ((label.filter (!isAscii ·)).map Char.toNat).mergeSort.eraseDups
  let start := if ascii.isEmpty then [] else ascii ++ ['-']
  (writeAll label ascii.length 128 { count := ascii.length, text := start } points).text

def readDistance (bias position weight distance : Nat) :
    List Char → Option (Nat × List Char)
  | [] => none
  | c :: rest => do
    let d ← value? c
    let t := threshold position bias
    let distance := distance + d * weight
    if d < t then return (distance, rest)
    readDistance bias (position + 36) (weight * (36 - t)) distance rest

def character? (point : Nat) : Option Char :=
  if point.isValidChar then some (Char.ofNat point) else none

/-- Puts the characters into place whose positions are left to read, of which there are at most
`most`. -/
def readAll (most point place bias : Nat) (first : Bool) (label digits : List Char) :
    Option (List Char) :=
  match most, digits with
  | _, [] => some label
  | 0, _ => none
  | most + 1, digits => do
    let (distance, rest) ← readDistance bias 36 1 0 digits
    let count := label.length + 1
    let place := place + distance
    let point := point + place / count
    let c ← character? point
    let i := place % count
    readAll most point (i + 1) (adapt distance count first) false
      (label.take i ++ c :: label.drop i) rest

def decode? (text : List Char) : Option (List Char) :=
  let ascii := (text.reverse.dropWhile (· != '-')).drop 1
  let digits := (text.reverse.takeWhile (· != '-')).reverse
  readAll digits.length 128 0 72 true ascii.reverse digits

end RemoteSigning.Url.Punycode
