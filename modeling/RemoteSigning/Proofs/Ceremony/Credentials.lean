import RemoteSigning.Ceremony.Credential
import RemoteSigning.Proofs.Base64

/-!
# Credentials as text and back

Reading and writing a credential are the same relation seen from two sides. A message is read as a
credential exactly if the message without the padding of its binary members is what is written for
the credential. In particular a message that has a member of the other ceremony is not read at all,
since no credential is written so.
-/

namespace RemoteSigning.Ceremony

open Base64 (unpadded encodeUrl)

/-- A binary field is accepted exactly if it is the encoding of some octets, up to padding. -/
theorem decodeBinary_eq_ok {field text : String} {bytes : Bytes} :
    decodeBinary field text = .ok bytes ↔ unpadded text = encodeUrl bytes := by
  rw [decodeBinary, Except.mapError_eq_ok, Base64.decodeUrlLenient_eq_ok]

theorem decodeBinary?_eq_ok {field : String} {text? : Option String} {bytes? : Option Bytes} :
    decodeBinary? field text? = .ok bytes? ↔ text?.map unpadded = bytes?.map encodeUrl := by
  cases text? with
  | none => cases bytes? <;> simp [decodeBinary?]
  | some text => cases bytes? <;> simp [decodeBinary?, decodeBinary_eq_ok]

theorem map_unpadded_encodeUrl (bytes? : Option Bytes) :
    (bytes?.map encodeUrl).map unpadded = bytes?.map encodeUrl := by
  cases bytes? with
  | none => rfl
  | some bytes => exact congrArg some (Base64.unpadded_encodeUrl bytes)

/-- A response with all its binary fields stripped of padding. -/
def ResponseMessage.withoutPadding (r : ResponseMessage) : ResponseMessage :=
  { r with
    clientDataJSON := r.clientDataJSON.map unpadded
    attestationObject := r.attestationObject.map unpadded
    authenticatorData := r.authenticatorData.map unpadded
    signature := r.signature.map unpadded
    userHandle := r.userHandle.map unpadded }

/-- A credential with all its binary fields stripped of padding. -/
def CredentialMessage.withoutPadding (m : CredentialMessage) : CredentialMessage :=
  { m with
    rawId := m.rawId.map unpadded
    response := m.response.withoutPadding }

/-- Encoding writes no padding. -/
theorem AttestationResponse.withoutPadding_encode (r : AttestationResponse) :
    r.encode.withoutPadding = r.encode := by
  simp only [encode, ResponseMessage.withoutPadding, map_unpadded_encodeUrl, Option.map_none]

theorem AssertionResponse.withoutPadding_encode (r : AssertionResponse) :
    r.encode.withoutPadding = r.encode := by
  simp only [encode, ResponseMessage.withoutPadding, map_unpadded_encodeUrl, Option.map_none]

theorem CeremonyResult.withoutPadding_encodeWith {ρ : Type} {encode : ρ → ResponseMessage}
    (h : ∀ r, (encode r).withoutPadding = encode r) (c : CeremonyResult ρ) :
    (c.encodeWith encode).withoutPadding = c.encodeWith encode := by
  simp only [encodeWith, CredentialMessage.withoutPadding, map_unpadded_encodeUrl, h]

/-- Whether an answer has no member of the other ceremony. -/
def ResponseMessage.IsOwn (r : ResponseMessage) (kind : Kind) : Prop :=
  ∀ member ∈ r.foreignTo kind, member.2 = false

/-- An answer passes for one of a kind exactly if it is one of its own. -/
theorem CredentialMessage.checkKind_eq_ok (m : CredentialMessage) (kind : Kind) :
    m.checkKind kind = .ok () ↔ m.response.IsOwn kind := by
  rw [checkKind, ResponseMessage.IsOwn]
  cases hFound : (m.response.foreignTo kind).find? (·.2) with
  | none => simpa using hFound
  | some member =>
      have hForeign := List.find?_some hFound
      have hMember := List.mem_of_find?_eq_some hFound
      simp only [reduceCtorEq, false_iff]
      intro hOwn
      exact Bool.false_ne_true ((hOwn member hMember).symm.trans hForeign)

/-- Up to padding, the response to a creation is read from what is written for it and from nothing
else. -/
theorem ResponseMessage.decodeAttestation_eq_ok (m : ResponseMessage) (r : AttestationResponse) :
    m.IsOwn .create ∧ m.decodeAttestation = .ok r ↔ m.withoutPadding = r.encode := by
  simp only [decodeAttestation, Except.bind_eq_ok, decodeBinary?_eq_ok, Except.pure_eq_ok,
    Except.ok.injEq, IsOwn, foreignTo, List.forall_mem_cons, Option.isSome_eq_false_iff,
    Option.isNone_iff_eq_none]
  constructor
  · rintro ⟨⟨hData, hSignature, hUser, -⟩, clientDataJSON, hClient, attestationObject, hObject, rfl⟩
    simp only [withoutPadding, AttestationResponse.encode, hClient, hObject, hData, hSignature, hUser,
      Option.map_none]
  · intro h
    cases r
    simp only [withoutPadding, AttestationResponse.encode, ResponseMessage.mk.injEq,
      Option.map_eq_none_iff] at h
    obtain ⟨hClient, hObject, rfl, hData, hSignature, hUser⟩ := h
    exact ⟨⟨hData, hSignature, hUser, by simp⟩, _, hClient, _, hObject, rfl⟩

/-- The same of the response to a request. -/
theorem ResponseMessage.decodeAssertion_eq_ok (m : ResponseMessage) (r : AssertionResponse) :
    m.IsOwn .get ∧ m.decodeAssertion = .ok r ↔ m.withoutPadding = r.encode := by
  simp only [decodeAssertion, Except.bind_eq_ok, decodeBinary?_eq_ok, Except.pure_eq_ok,
    Except.ok.injEq, IsOwn, foreignTo, List.forall_mem_cons, Option.isSome_eq_false_iff,
    Option.isNone_iff_eq_none]
  constructor
  · rintro ⟨⟨hObject, hTransports, -⟩, clientDataJSON, hClient, authenticatorData, hData, signature,
      hSignature, userHandle, hUser, rfl⟩
    simp only [withoutPadding, AssertionResponse.encode, hClient, hData, hSignature, hUser, hObject,
      hTransports, Option.map_none]
  · intro h
    cases r
    simp only [withoutPadding, AssertionResponse.encode, ResponseMessage.mk.injEq,
      Option.map_eq_none_iff] at h
    obtain ⟨hClient, hObject, hTransports, hData, hSignature, hUser⟩ := h
    exact ⟨⟨hObject, hTransports, by simp⟩, _, hClient, _, hData, _, hSignature, _, hUser, rfl⟩

/-- The result of a ceremony is read as its answer is. -/
theorem CredentialMessage.decodeWith_eq_ok {ρ : Type} {kind : Kind} {encode : ρ → ResponseMessage}
    {decode : ResponseMessage → Except DecodeError ρ}
    (h : ∀ m r, m.IsOwn kind ∧ decode m = .ok r ↔ m.withoutPadding = encode r)
    (m : CredentialMessage) (c : CeremonyResult ρ) :
    m.decodeWith kind decode = .ok c ↔ m.withoutPadding = c.encodeWith encode := by
  simp only [decodeWith, Except.bind_eq_ok, decodeBinary?_eq_ok, Except.pure_eq_ok, Except.ok.injEq]
  constructor
  · rintro ⟨_, hKind, rawId, hId, response, hResponse, rfl⟩
    simp only [withoutPadding, CeremonyResult.encodeWith, hId,
      (h _ _).mp ⟨(checkKind_eq_ok m kind).mp hKind, hResponse⟩]
  · intro hWritten
    cases c
    simp only [withoutPadding, CeremonyResult.encodeWith, CredentialMessage.mk.injEq] at hWritten
    obtain ⟨rfl, hId, rfl, rfl, hResponse, rfl⟩ := hWritten
    obtain ⟨hOwn, hRead⟩ := (h _ _).mpr hResponse
    exact ⟨(), (checkKind_eq_ok m kind).mpr hOwn, _, hId, _, hRead, rfl⟩

theorem CredentialMessage.decodeRegistration_eq_ok (m : CredentialMessage) (r : Registration) :
    m.decodeRegistration = .ok r ↔ m.withoutPadding = r.encodeWith AttestationResponse.encode :=
  decodeWith_eq_ok ResponseMessage.decodeAttestation_eq_ok m r

theorem CredentialMessage.decodeAssertion_eq_ok (m : CredentialMessage) (a : Assertion) :
    m.decodeAssertion = .ok a ↔ m.withoutPadding = a.encodeWith AssertionResponse.encode :=
  decodeWith_eq_ok ResponseMessage.decodeAssertion_eq_ok m a

/-- A message is read as a credential of the expected ceremony exactly if it is what is written for
that credential, up to padding. -/
theorem CredentialMessage.decode_eq_ok (m : CredentialMessage) (kind : Kind) (c : Credential) :
    m.decode kind = .ok c ↔ c.kind = kind ∧ m.withoutPadding = c.encode := by
  cases kind <;> cases c <;>
    simp [decode, Credential.kind, Credential.encode, decodeRegistration_eq_ok, decodeAssertion_eq_ok]

theorem Credential.withoutPadding_encode (c : Credential) : c.encode.withoutPadding = c.encode := by
  cases c with
  | registration r =>
      exact r.withoutPadding_encodeWith AttestationResponse.withoutPadding_encode
  | assertion a => exact a.withoutPadding_encodeWith AssertionResponse.withoutPadding_encode

/-- A credential that is encoded is read as itself. -/
theorem decode_encode (c : Credential) : c.encode.decode c.kind = .ok c :=
  (CredentialMessage.decode_eq_ok ..).mpr ⟨rfl, c.withoutPadding_encode⟩

/-- Decoding gives a credential of the expected ceremony, with the extension results of the
message. -/
theorem encode_of_decode {m : CredentialMessage} {kind : Kind} {c : Credential}
    (h : m.decode kind = .ok c) :
    c.kind = kind ∧ c.encode.clientExtensionResults = m.clientExtensionResults := by
  obtain ⟨hKind, hWritten⟩ := (CredentialMessage.decode_eq_ok ..).mp h
  exact ⟨hKind, by rw [← hWritten]; rfl⟩

end RemoteSigning.Ceremony
