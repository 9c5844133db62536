/-!
# Hexadecimal digits

Single digits in both directions, and octets as pairs of lower-case digits.
-/

namespace RemoteSigning.Text.Hex

/-- The digit for a number below sixteen, in lower case. -/
def lowerDigit (n : Nat) : Char :=
  if n < 10 then Char.ofNat (48 + n) else Char.ofNat (87 + n)

/-- The digit for a number below sixteen, in upper case. -/
def upperDigit (n : Nat) : Char :=
  if n < 10 then Char.ofNat (48 + n) else Char.ofNat (55 + n)

def digit? (c : Char) : Option Nat :=
  if '0' ≤ c && c ≤ '9' then some (c.toNat - 48)
  else if 'a' ≤ c && c ≤ 'f' then some (c.toNat - 87)
  else if 'A' ≤ c && c ≤ 'F' then some (c.toNat - 55)
  else none

/-- The digits of a number without leading zeros, in lower case. -/
def ofNat (n : Nat) : List Char := Nat.toDigits 16 n

def encode (bytes : List UInt8) : String :=
  String.ofList (bytes.flatMap fun b => [lowerDigit (b.toNat / 16), lowerDigit (b.toNat % 16)])

def decodePairs : List Char → Option (List UInt8)
  | [] => some []
  | h :: l :: rest => do
    let high ← digit? h
    let low ← digit? l
    let bytes ← decodePairs rest
    return UInt8.ofNat (high * 16 + low) :: bytes
  | _ => none

/-- Reads pairs of digits, and `none` if the text is anything else. -/
def decode? (text : String) : Option (List UInt8) := decodePairs text.toList

end RemoteSigning.Text.Hex
