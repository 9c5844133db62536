import RemoteSigning.Number.Power
import RemoteSigning.Text.Hex
/-!
# Internet addresses of version 4

Written as up to four numbers between points, each decimal, octal or hexadecimal; the last one fills
all octets that are left.
-/

namespace RemoteSigning.Url.Ipv4

open Text

/-- The value of digits in a base, or `none` if one of them is no digit of it. -/
def ofDigits? (base : Nat) (cs : List Char) : Option Nat :=
  cs.foldlM
    (fun n c => (Hex.digit? c).bind fun d => if d < base then some (n * base + d) else none) 0

/-- Reads a number. A `0` or `0x` in front tells its base. -/
def number? : List Char → Option Nat
  | [] => none
  | '0' :: 'x' :: cs => ofDigits? 16 cs
  | '0' :: 'X' :: cs => ofDigits? 16 cs
  | '0' :: c :: cs => ofDigits? 8 (c :: cs)
  | cs => ofDigits? 10 cs

/-- The parts of a name between points, without an empty last one. -/
def parts (name : List Char) : List (List Char) :=
  let ps := name.splitOn '.'
  if ps.getLast? = some [] then ps.dropLast else ps

/-- Whether a name has to be an address, because its last part is a number. -/
def isMeant (name : List Char) : Bool :=
  match (parts name).getLast? with
  | none => false
  | some last =>
    (!last.isEmpty && last.all Char.isDigit) || (number? last).isSome

/-- Puts the first numbers into the highest octets. -/
def combine (last : Nat) (shift : Nat) : List Nat → Nat
  | [] => last
  | n :: rest => n * 2 ^ shift + combine last (shift - 8) rest

def ofName? (name : List Char) : Option Nat := do
  let ps := parts name
  if 4 < ps.length then none
  let numbers ← ps.mapM number?
  let last ← numbers.getLast?
  let first := numbers.dropLast
  if 2 ^ (32 - 8 * first.length) ≤ last || first.any (255 < ·) then none
  return combine last 24 first

/-- The octets of an address as decimal numbers. -/
def text (address : Nat) : String :=
  ".".intercalate
    ([address / 2 ^ 24, address / 2 ^ 16 % 256, address / 2 ^ 8 % 256, address % 256].map toString)

end RemoteSigning.Url.Ipv4
