import RemoteSigning.Proofs.Hash.Hmac
import RemoteSigning.Proofs.Token.Verification

/-!
# Tokens under another secret

A token is accepted under another secret exactly if that secret issues the same token. Two secrets do
so if they are brought to the same block, which is all that the keyed hash sees of them, and otherwise
only by a collision of SHA-256. Up to sixty-four octets, texts that differ by null characters at their
end are brought to the same block: they are one secret.
-/

namespace RemoteSigning.Token

open Json Hash

variable {secret secret' : ChallengeSecret} {claims : Claims}

/-- Whether one of two texts is the other with null characters added at its end. -/
def NullsApart (text text' : String) : Prop :=
  ∃ n, text'.toList = text.toList ++ List.replicate n '\x00' ∨
    text.toList = text'.toList ++ List.replicate n '\x00'

/-- A null character is written as a zero, and nothing else is. -/
theorem octets_eq_append_zeros {text text' : String} {n : Nat} :
    Text.octets text' = Text.octets text ++ List.replicate n 0 ↔
      text'.toList = text.toList ++ List.replicate n '\x00' := by
  have hNulls : ∀ n, (List.replicate n '\x00').flatMap Text.charOctets = List.replicate n 0 := by
    intro n
    induction n with
    | zero => rfl
    | succ n ih => rw [List.replicate_succ, List.flatMap_cons, ih]; rfl
  have hLonger : Text.octets (String.ofList (text.toList ++ List.replicate n '\x00')) =
      Text.octets text ++ List.replicate n 0 := by
    rw [Text.octets, String.toList_ofList, List.flatMap_append, hNulls, Text.octets]
  rw [← hLonger]
  constructor
  · intro h
    rw [Text.octets_injective h, String.toList_ofList]
  · intro h
    rw [← h, String.ofList_toList]

theorem zerosApart_key_iff :
    ZerosApart secret.key secret'.key ↔ NullsApart secret.text secret'.text := by
  simp only [ZerosApart, NullsApart, ChallengeSecret.key, octets_eq_append_zeros]

theorem signature_eq_iff {signed : String} :
    signature secret signed = signature secret' signed ↔
      keyBlock secret.key = keyBlock secret'.key ∨
        Collide (outerMessage secret.key (Text.octets signed))
          (outerMessage secret'.key (Text.octets signed)) := by
  rw [signature, signature, ← hmacSha256_eq_iff]
  exact ⟨fun h => Base64.encodeUrl_injective h, fun h => by rw [h]⟩

/-- Another secret accepts the token of a secret only if it issues the same token itself. -/
theorem verify_issue_other (h : claims.elapsedSeconds < 2 ^ 64) :
    verify secret' (issue secret claims) =
      if issue secret claims = issue secret' claims then .ok claims else .error .badSignature := by
  have hIssued : Authentic secret (issuedSegments secret claims) claims := authentic_issued h
  by_cases hSame : issue secret claims = issue secret' claims
  · rw [if_pos hSame, hSame, verify_issue h]
  · rw [if_neg hSame, ← text_issuedSegments, verify_of_header hIssued.atLastPoints hIssued.header,
      if_neg]
    rw [signed_issuedSegments]
    intro hSignature
    rw [issue, issue, ← hSignature] at hSame
    exact hSame rfl

/-- For every challenge and second, a token is accepted under another secret exactly if both secrets
issue it, and is refused for its signature otherwise. Both issue it exactly if their keys fill the
block alike or the messages that are hashed last collide. Keys fill the block alike exactly if they
are zeros apart once keys that are too long are hashed, which for secrets of up to sixty-four octets
means that their texts are null characters apart. -/
theorem accepted_under_other_iff (challengeId : String) (elapsed : UInt64)
    (secret secret' : ChallengeSecret) :
    verify secret' (issue secret ⟨challengeId, elapsed.toNat⟩) =
      (if issue secret ⟨challengeId, elapsed.toNat⟩ = issue secret' ⟨challengeId, elapsed.toNat⟩ then
        .ok ⟨challengeId, elapsed.toNat⟩
      else .error .badSignature) ∧
    (issue secret ⟨challengeId, elapsed.toNat⟩ = issue secret' ⟨challengeId, elapsed.toNat⟩ ↔
      keyBlock secret.key = keyBlock secret'.key ∨
        Collide
          (outerMessage secret.key (Text.octets (signedPart ⟨challengeId, elapsed.toNat⟩)))
          (outerMessage secret'.key (Text.octets (signedPart ⟨challengeId, elapsed.toNat⟩)))) ∧
    (keyBlock secret.key = keyBlock secret'.key ↔
      ZerosApart (fittedKey secret.key) (fittedKey secret'.key)) ∧
    (secret.key.length ≤ 64 → secret'.key.length ≤ 64 →
      (keyBlock secret.key = keyBlock secret'.key ↔ NullsApart secret.text secret'.text)) := by
  refine ⟨verify_issue_other elapsed.toNat_lt, ?_, keyBlock_eq_iff, ?_⟩
  · rw [← signature_eq_iff]
    constructor
    · intro hToken
      exact (eq_of_issue_eq elapsed.toNat_lt elapsed.toNat_lt hToken).2
    · intro hSignature
      rw [issue, hSignature, issue]
  · intro hFits hFits'
    rw [keyBlock_eq_iff, fittedKey_of_length_le hFits, fittedKey_of_length_le hFits',
      zerosApart_key_iff]

/-- A secret with a null character after it issues the same token and accepts it. -/
theorem accepted_with_null_added :
    (⟨"k"⟩ : ChallengeSecret) ≠ ⟨"k\x00"⟩ ∧
      issue ⟨"k"⟩ ⟨"c", 0⟩ = issue ⟨"k\x00"⟩ ⟨"c", 0⟩ ∧
      verify ⟨"k\x00"⟩ (issue ⟨"k"⟩ ⟨"c", 0⟩) = .ok ⟨"c", 0⟩ := by
  obtain ⟨hVerify, hIssue, -, hBlock⟩ := accepted_under_other_iff "c" 0 ⟨"k"⟩ ⟨"k\x00"⟩
  have hNulls : NullsApart "k" "k\x00" := ⟨1, .inl rfl⟩
  have hSame := hIssue.mpr (.inl ((hBlock (by decide) (by decide)).mpr hNulls))
  refine ⟨by decide, hSame, ?_⟩
  rw [if_pos hSame] at hVerify
  exact hVerify

end RemoteSigning.Token
