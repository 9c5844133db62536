import RemoteSigning.Url.Percent
/-!
# Form coding

Pairs of a name and a value as they stand in a query: joined by `=` and separated by `&`, with `+`
for the blank and percent escapes for all but letters, digits and four marks.
-/

namespace RemoteSigning.Url.Form

open Text

/-- Whether an octet stands for itself. -/
def isPlain (b : UInt8) : Bool :=
  let c := Char.ofNat b.toNat
  b < 0x80 && (c.isAlphanum || c == '*' || c == '-' || c == '.' || c == '_')

def encodeOctet (b : UInt8) : List Char :=
  if isPlain b then [Char.ofNat b.toNat]
  else if b = 0x20 then ['+']
  else Percent.escape b

def encode (text : String) : List Char := (octets text).flatMap encodeOctet

def encodePair (name value : String) : String :=
  String.ofList (encode name ++ '=' :: encode value)

def decode (bytes : List UInt8) : String :=
  ofOctetsLossy (Percent.decode (bytes.map fun b => if b = 0x2B then 0x20 else b))

/-- Reads a pair. Without `=` the value is empty. -/
def decodePair (bytes : List UInt8) : String × String :=
  (decode (bytes.takeWhile (· != 0x3D)), decode ((bytes.dropWhile (· != 0x3D)).drop 1))

def decodePairs (query : String) : List (String × String) :=
  (((octets query).splitOn 0x26).filter (!·.isEmpty)).map decodePair

end RemoteSigning.Url.Form
