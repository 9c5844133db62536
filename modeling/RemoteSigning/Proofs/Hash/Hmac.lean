import RemoteSigning.Hash.Hmac
import Mathlib.Data.List.Basic

/-!
# Keys of the keyed hash

The keyed hash sees of a key only the block that it is brought to. Keys that differ by zeros at their
end have the same block, so they are one key. Keys with different blocks are told apart by every
message, unless the two messages that are hashed last are a collision of SHA-256.
-/

namespace RemoteSigning.Hash

variable {key key' message : List UInt8}

theorem length_sha256 (message : List UInt8) : (sha256 message).length = 32 := by
  simp [sha256, bigEndian]

/-- The key that is filled up to a block. -/
def fittedKey (key : List UInt8) : List UInt8 := if key.length ≤ 64 then key else sha256 key

theorem fittedKey_of_length_le (h : key.length ≤ 64) : fittedKey key = key := if_pos h

/-- A key that is fitted fits into a block. -/
theorem length_fittedKey_le (key : List UInt8) : (fittedKey key).length ≤ 64 := by
  rw [fittedKey]
  split
  · assumption
  · rw [length_sha256]
    omega

/-- The block of a key is the fitted key, filled up with zeros. -/
theorem keyBlock_eq_append (key : List UInt8) :
    keyBlock key = fittedKey key ++ List.replicate (64 - (fittedKey key).length) 0 := rfl

/-- Every block has 64 octets. -/
theorem length_keyBlock (key : List UInt8) : (keyBlock key).length = 64 := by
  have hLength := length_fittedKey_le key
  rw [keyBlock_eq_append, List.length_append, List.length_replicate]
  omega

/-- Whether one of two octet sequences is the other with zeros added at its end. -/
def ZerosApart (l l' : List UInt8) : Prop :=
  ∃ n, l' = l ++ List.replicate n 0 ∨ l = l' ++ List.replicate n 0

/-- Adding zeros to a key that still fits leaves its block alone. -/
theorem filled_append_zeros {l : List UInt8} {n : Nat} (h : l.length + n ≤ 64) :
    l ++ List.replicate n 0 ++ List.replicate (64 - (l ++ List.replicate n 0).length) (0 : UInt8) =
      l ++ List.replicate (64 - l.length) 0 := by
  rw [List.append_assoc, List.replicate_append_replicate, List.length_append, List.length_replicate]
  congr 2
  omega

/-- Sequences that agree when filled up with zeros are zeros apart. -/
theorem zerosApart_of_append_eq {l l' : List UInt8} {m m' : Nat}
    (h : l ++ List.replicate m 0 = l' ++ List.replicate m' 0) : ZerosApart l l' := by
  rcases List.append_eq_append_iff.mp h with ⟨between, rfl, hZeros⟩ | ⟨between, rfl, hZeros⟩
  · have hBetween := (List.append_eq_replicate_iff.mp hZeros.symm).2.1
    exact ⟨between.length, .inl (congrArg (l ++ ·) hBetween)⟩
  · have hBetween := (List.append_eq_replicate_iff.mp hZeros.symm).2.1
    exact ⟨between.length, .inr (congrArg (l' ++ ·) hBetween)⟩

/-- Two keys have the same block exactly if they differ by zeros at the end, once keys that are
longer than a block are hashed. -/
theorem keyBlock_eq_iff :
    keyBlock key = keyBlock key' ↔ ZerosApart (fittedKey key) (fittedKey key') := by
  rw [keyBlock_eq_append, keyBlock_eq_append]
  have hFits := length_fittedKey_le key
  have hFits' := length_fittedKey_le key'
  constructor
  · exact zerosApart_of_append_eq
  · rintro ⟨n, h | h⟩
    · rw [h, List.length_append, List.length_replicate] at hFits'
      rw [h, filled_append_zeros hFits']
    · rw [h, List.length_append, List.length_replicate] at hFits
      rw [h, filled_append_zeros hFits]

/-- The message that is hashed last. -/
def outerMessage (key message : List UInt8) : List UInt8 :=
  (keyBlock key).map (· ^^^ 0x5c) ++ sha256 ((keyBlock key).map (· ^^^ 0x36) ++ message)

theorem hmacSha256_eq (key message : List UInt8) :
    hmacSha256 key message = sha256 (outerMessage key message) := rfl

/-- Whether two messages are different and have the same hash. -/
def Collide (message message' : List UInt8) : Prop :=
  message ≠ message' ∧ sha256 message = sha256 message'

/-- The masked block can be read off the message that is hashed last. -/
theorem outerMessage_eq_iff :
    outerMessage key message = outerMessage key' message ↔ keyBlock key = keyBlock key' := by
  constructor
  · intro h
    have hMasked : (keyBlock key).map (· ^^^ 0x5c) = (keyBlock key').map (· ^^^ 0x5c) := by
      refine List.append_inj_left h ?_
      rw [List.length_map, List.length_map, length_keyBlock, length_keyBlock]
    exact List.map_injective_iff.mpr (fun a b => (UInt8.xor_left_inj 0x5c).mp) hMasked
  · intro h
    rw [outerMessage, outerMessage, h]

/-- Two keys give a message the same code exactly if they have the same block or exhibit a
collision. -/
theorem hmacSha256_eq_iff :
    hmacSha256 key message = hmacSha256 key' message ↔
      keyBlock key = keyBlock key' ∨ Collide (outerMessage key message) (outerMessage key' message) := by
  rw [hmacSha256_eq, hmacSha256_eq]
  constructor
  · intro h
    by_cases hSame : outerMessage key message = outerMessage key' message
    · exact .inl (outerMessage_eq_iff.mp hSame)
    · exact .inr ⟨hSame, h⟩
  · rintro (hBlock | hCollide)
    · rw [outerMessage_eq_iff.mpr hBlock]
    · exact hCollide.2

end RemoteSigning.Hash
