import RemoteSigning.Hash.Sha256
/-!
# HMAC with SHA-256

A keyed hash: the key is brought to one block, and the hash is taken twice with the block masked in
two ways.
-/

namespace RemoteSigning.Hash

/-- The key as one block of sixty-four octets: a longer key is hashed first, a shorter one is filled
with zeros. -/
def keyBlock (key : List UInt8) : List UInt8 :=
  let key := if key.length ≤ 64 then key else sha256 key
  key ++ List.replicate (64 - key.length) 0

def hmacSha256 (key message : List UInt8) : List UInt8 :=
  let block := keyBlock key
  sha256 (block.map (· ^^^ 0x5c) ++ sha256 (block.map (· ^^^ 0x36) ++ message))

end RemoteSigning.Hash
