import RemoteSigning.Proofs.Token.RegisteredClaims
import RemoteSigning.Proofs.Token.Segments

/-!
# What tokens are accepted

A token is accepted exactly if its segments authenticate the claims under the secret. The signature
is compared before the payload is looked at, so only the header and the signature decide whether a
forged token is refused.

A token that is issued is accepted under its secret. It is bound to its challenge and its second:
no other claims have the same token under any secret.
-/

namespace RemoteSigning.Token

open Json

/-- Whether segments carry claims and were signed under the secret. -/
structure Authentic (secret : ChallengeSecret) (s : Segments) (claims : Claims) : Prop where
  atLastPoints : s.AtLastPoints
  header : Holds Header.form.decoder s.header ⟨.hs256⟩
  signature : s.signature = signature secret s.signed
  claims : Holds Claims.form.decoder s.payload claims
  registered : Holds registeredForm.decoder s.payload ()

variable {secret : ChallengeSecret} {s s' : Segments} {claims claims' : Claims}

/-- A payload is accepted if it holds the claims and nothing in it is wrong about the registered
ones. -/
theorem decodeClaims_eq_ok {payload : String} :
    decodeClaims payload = .ok claims ↔
      Holds Claims.form.decoder payload claims ∧ Holds registeredForm.decoder payload () := by
  simp only [decodeClaims, Except.bind_eq_ok, decodeSegment_eq_ok, Except.pure_eq_ok,
    Except.ok.injEq]
  constructor
  · rintro ⟨read, hClaims, _, hRegistered, rfl⟩
    exact ⟨hClaims, hRegistered⟩
  · rintro ⟨hClaims, hRegistered⟩
    exact ⟨claims, hClaims, (), hRegistered, rfl⟩

/-- With the header settled, the signature decides before the payload is read. -/
theorem verify_of_header (hPoints : s.AtLastPoints)
    (hHeader : Holds Header.form.decoder s.header ⟨.hs256⟩) :
    verify secret s.text =
      if s.signature = signature secret s.signed then (decodeClaims s.payload).mapError .malformed
      else .error .badSignature := by
  have hSplit : Segments.ofText? s.text = some s := Segments.ofText?_eq_some.mpr ⟨hPoints, rfl⟩
  rw [verify, hSplit]
  simp only [decodeSegment_eq_ok.mpr hHeader, Except.mapError_ok, Except.ok_bind]
  by_cases hSame : s.signature = signature secret s.signed
  · simp [hSame]
  · simp [hSame]

/-- A token is accepted exactly if it can be split into authentic segments. -/
theorem verify_eq_ok {token : String} :
    verify secret token = .ok claims ↔
      ∃ s : Segments, token = s.text ∧ Authentic secret s claims := by
  constructor
  · intro h
    cases hSplit : Segments.ofText? token with
    | none => simp [verify, hSplit] at h
    | some s =>
        obtain ⟨hPoints, rfl⟩ := Segments.ofText?_eq_some.mp hSplit
        have hHeader : Holds Header.form.decoder s.header ⟨.hs256⟩ := by
          rw [verify, hSplit] at h
          simp only [Except.bind_eq_ok, Except.mapError_eq_ok, decodeSegment_eq_ok] at h
          obtain ⟨⟨alg⟩, hHeader, h⟩ := h
          split at h
          · cases h
          · rename_i hAlg
            obtain rfl : alg = .hs256 := not_not.mp hAlg
            exact hHeader
        rw [verify_of_header hPoints hHeader] at h
        split at h
        · rename_i hSignature
          obtain ⟨hClaims, hRegistered⟩ := decodeClaims_eq_ok.mp (Except.mapError_eq_ok.mp h)
          exact ⟨s, rfl, hPoints, hHeader, hSignature, hClaims, hRegistered⟩
        · cases h
  · rintro ⟨s, rfl, h⟩
    rw [verify_of_header h.atLastPoints h.header, if_pos h.signature,
      decodeClaims_eq_ok.mpr ⟨h.claims, h.registered⟩, Except.mapError_ok]

theorem Segments.count_point (s : Segments) :
    s.text.toList.count '.' =
      s.header.toList.count '.' + s.payload.toList.count '.' + s.signature.toList.count '.' + 2 := by
  have hPoint : ".".toList = ['.'] := rfl
  simp only [text, signed, String.toList_append, List.count_append, hPoint, List.count_singleton_self]
  omega

/-- However the text of an authentic token is put together out of segments, they are the authentic
ones: there are no more than two points in it. -/
theorem Authentic.of_text_eq (h : Authentic secret s claims) (hText : s'.text = s.text) :
    Authentic secret s' claims := by
  have hHeader := List.count_eq_zero.mpr h.header.point_notMem
  have hPayload := List.count_eq_zero.mpr h.atLastPoints.payload
  have hSignature := List.count_eq_zero.mpr h.atLastPoints.signature
  have hPoints := s'.count_point
  rw [hText, s.count_point] at hPoints
  have hSplit : s'.AtLastPoints :=
    ⟨List.count_eq_zero.mp (by omega), List.count_eq_zero.mp (by omega)⟩
  rwa [hSplit.eq_of_text_eq h.atLastPoints hText]

/-- There is only one way to split it. -/
theorem verify_text_eq_ok : verify secret s.text = .ok claims ↔ Authentic secret s claims := by
  constructor
  · intro h
    obtain ⟨s', hText, hAuthentic⟩ := verify_eq_ok.mp h
    exact hAuthentic.of_text_eq hText
  · exact fun h => verify_eq_ok.mpr ⟨s, rfl, h⟩

/-- The segments of the token that is issued for claims. -/
def issuedSegments (secret : ChallengeSecret) (claims : Claims) : Segments where
  header := segment headerText
  payload := segment claims.toValue.compact
  signature := signature secret (signedPart claims)

theorem signed_issuedSegments : (issuedSegments secret claims).signed = signedPart claims := by
  rw [Segments.signed, signedPart, issuedSegments]

theorem text_issuedSegments : (issuedSegments secret claims).text = issue secret claims := by
  rw [Segments.text, signed_issuedSegments, issue, issuedSegments]

theorem holds_headerText : Holds Header.form.decoder (segment headerText) ⟨.hs256⟩ :=
  (holds_segment (by simp [Value.EveryNumber, Value.EveryNumberMembers])).mpr rfl

/-- Both readers of the payload read what is written for claims. -/
theorem holds_claims (h : claims.elapsedSeconds < 2 ^ 64) :
    Holds Claims.form.decoder (segment claims.toValue.compact) claims ∧
      Holds registeredForm.decoder (segment claims.toValue.compact) () := by
  have hNumbers : claims.toValue.EveryNumber Numeral.IsExact := by
    refine ⟨trivial, ⟨?_, ?_⟩, trivial⟩ <;> omega
  exact ⟨(holds_segment hNumbers).mpr rfl, (holds_segment hNumbers).mpr rfl⟩

/-- What is issued is authentic. -/
theorem authentic_issued (h : claims.elapsedSeconds < 2 ^ 64) :
    Authentic secret (issuedSegments secret claims) claims := by
  obtain ⟨hClaims, hRegistered⟩ := holds_claims h
  have hSignature : (issuedSegments secret claims).signature =
      signature secret (issuedSegments secret claims).signed := by
    rw [signed_issuedSegments, issuedSegments]
  have hNoPoint : '.' ∉ (issuedSegments secret claims).signature.toList := by
    rw [hSignature, signature]
    exact point_notMem_encodeUrl _
  exact ⟨⟨hClaims.point_notMem, hNoPoint⟩, holds_headerText, hSignature, hClaims, hRegistered⟩

theorem verify_issue (h : claims.elapsedSeconds < 2 ^ 64) :
    verify secret (issue secret claims) = .ok claims := by
  rw [← text_issuedSegments, verify_text_eq_ok]
  exact authentic_issued h

/-- What is signed belongs to one challenge and one second, and the signature is in the token. -/
theorem eq_of_issue_eq {secret' : ChallengeSecret} (h : claims.elapsedSeconds < 2 ^ 64)
    (h' : claims'.elapsedSeconds < 2 ^ 64) (hToken : issue secret claims = issue secret' claims') :
    claims = claims' ∧
      signature secret (signedPart claims) = signature secret' (signedPart claims') := by
  have hFirst : Authentic secret (issuedSegments secret claims) claims := authentic_issued h
  have hSecond : Authentic secret' (issuedSegments secret' claims') claims' := authentic_issued h'
  rw [← text_issuedSegments, ← text_issuedSegments] at hToken
  have hSame := hFirst.atLastPoints.eq_of_text_eq hSecond.atLastPoints hToken
  rw [issuedSegments, issuedSegments, Segments.mk.injEq] at hSame
  obtain ⟨-, hPayload, hSignature⟩ := hSame
  refine ⟨?_, hSignature⟩
  have hRead := (holds_claims h').1
  rw [← hPayload] at hRead
  exact (holds_claims h).1.unique hRead

/-- A token is accepted for claims exactly if it carries them and was signed under the secret. So a
header and a payload have at most one signature that is accepted, and with a header that is in order
any other is refused as such, whatever the payload is. Beside claims that are read, the registered
ones never decide by what they say, only by the form of the payload: it has to be an object, in which
none of them stands twice or is written so that its lenient reader does not come to its end. All of
them come to the end of whatever is no array or object and has no fault in it, and those of `iss` and
`aud` to that of any value without a fault. -/
theorem accepts_exactly_authentic (secret : ChallengeSecret) :
    (∀ (token : String) (claims : Claims), verify secret token = .ok claims ↔
      ∃ s : Segments, token = s.text ∧ Authentic secret s claims) ∧
    (∀ (header payload signature signature' : String) (claims claims' : Claims),
      verify secret (Segments.text ⟨header, payload, signature⟩) = .ok claims →
      verify secret (Segments.text ⟨header, payload, signature'⟩) = .ok claims' →
      signature = signature') ∧
    (∀ s : Segments, s.AtLastPoints → Holds Header.form.decoder s.header ⟨.hs256⟩ →
      s.signature ≠ signature secret s.signed → verify secret s.text = .error .badSignature) ∧
    (∀ (payload : Document) (claims : Claims),
      Claims.form.decoder Place.start payload = .ok claims →
      (registeredForm.decoder Place.start payload = .ok () ↔
        ∃ members, payload = .object members ∧
          (∀ claim ∈ registeredIn members, IsTakenIn (.text 127) claim) ∧
            ((registeredIn members).map (·.1)).Nodup)) ∧
    (∀ (claim : String × Document) (value : Value), (registered.lookup claim.1).isSome →
      claim.2.value (.text 127) = .ok value → claim.1 ∈ ["iss", "aud"] ∨ value.IsScalar →
      IsTakenIn (.text 127) claim) := by
  refine ⟨fun token claims => verify_eq_ok, ?_, ?_, fun payload claims => decoder_start_iff,
    fun claim value => isTakenIn_of_value⟩
  · intro header payload signature signature' claims claims' h h'
    have hFirst := (verify_text_eq_ok.mp h).signature
    have hSecond := (verify_text_eq_ok.mp h').signature
    exact hFirst.trans hSecond.symm
  · intro s hPoints hHeader hOther
    rw [verify_of_header hPoints hHeader, if_neg hOther]

/-- The token for one challenge is accepted and no other signature of it is. With a payload that is
not even base64 the signature still decides, and a claim `exp` long past does not. -/
theorem accepts_authentic_refuses_forged :
    verify ⟨"k"⟩ (issue ⟨"k"⟩ ⟨"c", 0⟩) = .ok ⟨"c", 0⟩ ∧
    (∀ signature' claims', verify ⟨"k"⟩
        (Segments.text ⟨segment headerText, segment (Claims.toValue ⟨"c", 0⟩).compact, signature'⟩) =
          .ok claims' →
      signature ⟨"k"⟩ (signedPart ⟨"c", 0⟩) = signature') ∧
    verify ⟨"k"⟩ (Segments.text ⟨segment headerText, "?", "AAAA"⟩) = .error .badSignature ∧
    registeredForm.decoder Place.start (Document.ofValue (.object
      [("exp", .integer 0), ("challenge_id", .string "c"), ("duration", .integer 0)])) = .ok () := by
  have hAuthentic : Authentic ⟨"k"⟩ (issuedSegments ⟨"k"⟩ ⟨"c", 0⟩) ⟨"c", 0⟩ :=
    authentic_issued (by decide)
  have hAccepted : verify ⟨"k"⟩ (issue ⟨"k"⟩ ⟨"c", 0⟩) = .ok ⟨"c", 0⟩ :=
    ((accepts_exactly_authentic ⟨"k"⟩).1 _ _).mpr ⟨_, text_issuedSegments.symm, hAuthentic⟩
  refine ⟨hAccepted, fun signature' claims' hOther => ?_, ?_, ?_⟩
  · rw [← text_issuedSegments] at hAccepted
    exact (accepts_exactly_authentic ⟨"k"⟩).2.1 _ _ _ _ _ _ hAccepted hOther
  · exact (accepts_exactly_authentic ⟨"k"⟩).2.2.1 ⟨segment headerText, "?", "AAAA"⟩
      ⟨by decide, by decide⟩ holds_headerText (by decide +kernel)
  · have hOnly : registeredIn (Members.ofValues
        [("exp", .integer 0), ("challenge_id", .string "c"), ("duration", .integer 0)]) =
          [("exp", .number (.ok (.integer 0)))] := rfl
    refine ((accepts_exactly_authentic ⟨"k"⟩).2.2.2.1 _ ⟨"c", 0⟩ rfl).mpr ⟨_, rfl, ?_⟩
    rw [hOnly]
    refine ⟨fun claim hClaim => ?_, by simp⟩
    obtain rfl := List.mem_singleton.mp hClaim
    exact (accepts_exactly_authentic ⟨"k"⟩).2.2.2.2 _ (.integer 0) rfl rfl (.inr trivial)

/-- Every token that is issued is read back under its secret as the challenge and the second that it
was issued for. Two tokens are the same, under whatever secrets, only if they are for the same
challenge and the same second. -/
theorem issued_tokens_bind (challengeId : String) (secret : ChallengeSecret) (elapsed : UInt64) :
    verify secret (issue secret ⟨challengeId, elapsed.toNat⟩) = .ok ⟨challengeId, elapsed.toNat⟩ ∧
    ∀ (challengeId' : String) (secret' : ChallengeSecret) (elapsed' : UInt64),
      issue secret ⟨challengeId, elapsed.toNat⟩ = issue secret' ⟨challengeId', elapsed'.toNat⟩ ↔
        (challengeId = challengeId' ∧ elapsed = elapsed') ∧
          signature secret (signedPart ⟨challengeId, elapsed.toNat⟩) =
            signature secret' (signedPart ⟨challengeId, elapsed.toNat⟩) := by
  refine ⟨verify_issue elapsed.toNat_lt, fun challengeId' secret' elapsed' => ⟨fun h => ?_, ?_⟩⟩
  · obtain ⟨hClaims, hSignature⟩ := eq_of_issue_eq elapsed.toNat_lt elapsed'.toNat_lt h
    obtain ⟨rfl, hElapsed⟩ := Claims.mk.inj hClaims
    obtain rfl := UInt64.toNat_inj.mp hElapsed
    exact ⟨⟨rfl, rfl⟩, hSignature⟩
  · rintro ⟨⟨rfl, rfl⟩, hSignature⟩
    rw [issue, hSignature, issue]

end RemoteSigning.Token
