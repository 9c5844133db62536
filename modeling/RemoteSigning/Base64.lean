import RemoteSigning.Text.Utf8
/-!
# Base64

Both alphabets, with and without padding. `encode` groups octets into sextets; `decode` accepts only
texts that `encode` writes and names the first fault of any other text by its octet offset.
-/

namespace RemoteSigning.Base64

/-- The two symbols in which the alphabets differ. -/
structure Alphabet where
  /-- The symbol for the value 62. -/
  symbol62 : Char
  /-- The symbol for the value 63. -/
  symbol63 : Char
deriving DecidableEq, Repr

/-- The alphabet with `+` and `/`. -/
def Alphabet.standard : Alphabet := ⟨'+', '/'⟩

/-- The alphabet with `-` and `_`, safe in URLs. -/
def Alphabet.urlSafe : Alphabet := ⟨'-', '_'⟩

/-- Whether the last group is filled up with `=`. -/
inductive Padding where
  /-- The last group is filled up to four symbols. -/
  | required
  /-- No `=` is written or read. -/
  | forbidden
deriving DecidableEq, Repr

/-- Why a text is not base64. -/
inductive Fault where
  /-- An octet that is no symbol, or padding where none may be. -/
  | symbol (octet : UInt8) (offset : Nat)
  /-- The last symbol has bits set that belong to no octet. -/
  | lastSymbol (octet : UInt8) (offset : Nat)
  | length (symbols : Nat)
  | padding
deriving DecidableEq, Repr

def Fault.message : Fault → String
  | .symbol octet offset =>
    "Invalid symbol " ++ toString octet.toNat ++ ", offset " ++ toString offset ++ "."
  | .lastSymbol octet offset =>
    "Invalid last symbol " ++ toString octet.toNat ++ ", offset " ++ toString offset ++ "."
  | .length symbols => "Invalid input length: " ++ toString symbols
  | .padding => "Invalid padding"

/-- The symbol for a value below 64. -/
def Alphabet.symbol (a : Alphabet) (n : Nat) : Char :=
  if n < 26 then Char.ofNat (65 + n)
  else if n < 52 then Char.ofNat (71 + n)
  else if n < 62 then Char.ofNat (n - 4)
  else if n = 62 then a.symbol62
  else a.symbol63

def Alphabet.value? (a : Alphabet) (octet : UInt8) : Option Nat :=
  let n := octet.toNat
  if 65 ≤ n ∧ n ≤ 90 then some (n - 65)
  else if 97 ≤ n ∧ n ≤ 122 then some (n - 71)
  else if 48 ≤ n ∧ n ≤ 57 then some (n + 4)
  else if n = a.symbol62.toNat then some 62
  else if n = a.symbol63.toNat then some 63
  else none

def pad : UInt8 := 61

/-- The symbols for octets. -/
def encodeSymbols (a : Alphabet) (p : Padding) : List UInt8 → List Char
  | [] => []
  | [x] =>
    [a.symbol (x.toNat / 4), a.symbol (x.toNat % 4 * 16)]
      ++ if p = .required then ['=', '='] else []
  | [x, y] =>
    [a.symbol (x.toNat / 4), a.symbol (x.toNat % 4 * 16 + y.toNat / 16),
      a.symbol (y.toNat % 16 * 4)] ++ if p = .required then ['='] else []
  | x :: y :: z :: rest =>
    a.symbol (x.toNat / 4) :: a.symbol (x.toNat % 4 * 16 + y.toNat / 16)
      :: a.symbol (y.toNat % 16 * 4 + z.toNat / 64) :: a.symbol (z.toNat % 64)
      :: encodeSymbols a p rest

/-- Octets as base64 text. -/
def encode (a : Alphabet) (p : Padding) (bytes : List UInt8) : String :=
  String.ofList (encodeSymbols a p bytes)

/-- The values of symbols, or the first octet that is none. -/
def values (a : Alphabet) (offset : Nat) : List UInt8 → Except Fault (List Nat)
  | [] => .ok []
  | b :: rest => do
    let some n := a.value? b | throw (.symbol b offset)
    return n :: (← values a (offset + 1) rest)

/-- The octets of a last group of two to four values, or `none` if bits are left over that are not
zero. -/
def lastOctets : List Nat → Option (List UInt8)
  | [v, w] => if w % 16 = 0 then some [UInt8.ofNat (v * 4 + w / 16)] else none
  | [v, w, x] =>
    if x % 4 = 0 then
      some [UInt8.ofNat (v * 4 + w / 16), UInt8.ofNat (w % 16 * 16 + x / 4)]
    else none
  | [v, w, x, y] =>
    some [UInt8.ofNat (v * 4 + w / 16), UInt8.ofNat (w % 16 * 16 + x / 4),
      UInt8.ofNat (x % 4 * 64 + y)]
  | _ => some []

/-- Decodes the last group, which has at most four octets. Padding may follow two symbols, and only
padding may follow padding. -/
def decodeLast (a : Alphabet) (p : Padding) (offset : Nat) (group : List UInt8) :
    Except Fault (List UInt8) := do
  let symbols := group.takeWhile (· != pad)
  let padding := group.dropWhile (· != pad)
  let vs ← values a offset symbols
  if !padding.isEmpty && (symbols.length < 2 || padding.any (· != pad)) then
    throw (.symbol pad (offset + symbols.length))
  if group.isEmpty then return []
  if symbols.length < 2 then throw (.length (offset + symbols.length))
  match p with
  | .required => if group.length % 4 ≠ 0 then throw .padding
  | .forbidden => if !padding.isEmpty then throw .padding
  match lastOctets vs with
  | some bytes => return bytes
  | none => throw (.lastSymbol (symbols.getLastD 0) (offset + symbols.length - 1))

/-- Decodes group after group. -/
def decodeGroups (a : Alphabet) (p : Padding) (offset : Nat) :
    List UInt8 → Except Fault (List UInt8)
  | b₀ :: b₁ :: b₂ :: b₃ :: b₄ :: rest => do
    let vs ← values a offset [b₀, b₁, b₂, b₃]
    return (lastOctets vs).getD [] ++ (← decodeGroups a p (offset + 4) (b₄ :: rest))
  | group => decodeLast a p offset group

/-- Decodes octets of text. When one octet is left over after groups of four and it is neither a
symbol nor padding, it is reported first. -/
def decodeOctets (a : Alphabet) (p : Padding) (text : List UInt8) : Except Fault (List UInt8) :=
  let stray := text.getLastD 0
  if text.length % 4 = 1 ∧ stray ≠ pad ∧ a.value? stray = none then
    .error (.symbol stray (text.length - 1))
  else decodeGroups a p 0 text

def decode (a : Alphabet) (p : Padding) (text : String) : Except Fault (List UInt8) :=
  decodeOctets a p (Text.octets text)

def encodeUrl (bytes : List UInt8) : String := encode .urlSafe .forbidden bytes

def decodeUrl (text : String) : Except Fault (List UInt8) := decode .urlSafe .forbidden text

/-- The text without the `=` at its end. -/
def trimPadding (text : String) : String :=
  String.ofList (text.toList.reverse.dropWhile (· == '=')).reverse

/-- Reads text in the URL-safe alphabet, whatever number of `=` it ends in. -/
def decodeUrlLenient (text : String) : Except Fault (List UInt8) := decodeUrl (trimPadding text)

def encodeStandard (bytes : List UInt8) : String := encode .standard .required bytes

def decodeStandard (text : String) : Except Fault (List UInt8) := decode .standard .required text

end RemoteSigning.Base64
