import RemoteSigning.Text.Hex
import RemoteSigning.Text.Utf8
/-!
# Percent escapes

An octet that cannot stand for itself is written as `%` and two upper-case digits. Which octets
those are depends on the part of the URL; decoding reads every escape and leaves a `%` that begins
none.
-/

namespace RemoteSigning.Url.Percent

open Text

def escape (b : UInt8) : List Char :=
  ['%', Hex.upperDigit (b.toNat / 16), Hex.upperDigit (b.toNat % 16)]

/-- Characters that a part of a URL escapes. Controls and everything beyond ASCII are escaped in any
part. -/
abbrev Reserved := List Char

/-- Whether an octet is escaped. -/
def Reserved.escapes (reserved : Reserved) (b : UInt8) : Bool :=
  b < 0x20 || 0x7F ≤ b || reserved.any fun c => c.toNat == b.toNat

/-- What is reserved in a path that is not divided into segments, and in names of hosts that are not
domains. -/
def inControl : Reserved := []

def inFragment : Reserved := [' ', '"', '<', '>', '\x60']

def inPath : Reserved := inFragment ++ ['#', '?', '{', '}']

def inUserinfo : Reserved := inPath ++ ['/', ':', ';', '=', '@', '[', '\\', ']', '^', '|']

def inQuery : Reserved := [' ', '"', '#', '<', '>']

def inSpecialQuery : Reserved := inQuery ++ ['\x27']

def encodeOctet (reserved : Reserved) (b : UInt8) : List Char :=
  if reserved.escapes b then escape b else [Char.ofNat b.toNat]

/-- Octets as they are written. -/
def encodeOctets (reserved : Reserved) (bytes : List UInt8) : List Char :=
  bytes.flatMap (encodeOctet reserved)

def encode (reserved : Reserved) (cs : List Char) : List Char :=
  encodeOctets reserved (cs.flatMap charOctets)

/-- The value of a digit that is written as an octet. -/
def digit? (b : UInt8) : Option Nat := Hex.digit? (Char.ofNat b.toNat)

def decode : List UInt8 → List UInt8
  | [] => []
  | [a] => [a]
  | [a, b] => [a, b]
  | a :: b :: c :: rest =>
    if a = 0x25 then
      match digit? b, digit? c with
      | some high, some low => UInt8.ofNat (high * 16 + low) :: decode rest
      | _, _ => a :: decode (b :: c :: rest)
    else a :: decode (b :: c :: rest)

end RemoteSigning.Url.Percent
