import RemoteSigning.Ceremony.Envelope
import RemoteSigning.Proofs.Ceremony.Credentials

/-!
# Envelopes as text and back

Reading and writing an envelope are the same relation seen from two sides. A message is read as an
envelope exactly if the message without the padding of its binary members is what is written for the
envelope. So what is written is read back, and writing what was read changes nothing but padding.
-/

namespace RemoteSigning.Ceremony

open Base64 (unpadded encodeUrl)

/-- A user with its identifier stripped of padding. -/
def UserEntity.withoutPadding (u : UserEntity String) : UserEntity String :=
  { u with id := unpadded u.id }

/-- A descriptor with its identifier stripped of padding. -/
def CredentialDescriptor.withoutPadding (d : CredentialDescriptor String) :
    CredentialDescriptor String :=
  { d with id := unpadded d.id }

/-- The options with all their binary fields stripped of padding, down to the descriptors. -/
def CreationOptions.withoutPadding (o : CreationOptions String) : CreationOptions String :=
  { o with
    user := o.user.map (·.withoutPadding)
    challenge := unpadded o.challenge
    excludeCredentials := o.excludeCredentials.map (·.map (·.withoutPadding)) }

/-- The options with all their binary fields stripped of padding, down to the descriptors. -/
def RequestOptions.withoutPadding (o : RequestOptions String) : RequestOptions String :=
  { o with
    challenge := unpadded o.challenge
    allowCredentials := o.allowCredentials.map (·.map (·.withoutPadding)) }

/-- A message of any of the four kinds with all its binary fields stripped of padding. -/
def Message.withoutPadding : Message → Message
  | .creationOptions o => .creationOptions o.withoutPadding
  | .requestOptions o => .requestOptions o.withoutPadding
  | .creationResult c => .creationResult c.withoutPadding
  | .requestResult c => .requestResult c.withoutPadding

/-- Encoding writes no padding. -/
theorem UserEntity.withoutPadding_encode (u : UserEntity Bytes) :
    u.encode.withoutPadding = u.encode := by
  simp only [encode, withoutPadding, Base64.unpadded_encodeUrl]

theorem CredentialDescriptor.withoutPadding_encode (d : CredentialDescriptor Bytes) :
    d.encode.withoutPadding = d.encode := by
  simp only [encode, withoutPadding, Base64.unpadded_encodeUrl]

theorem CreationOptions.withoutPadding_encode (o : CreationOptions Bytes) :
    o.encode.withoutPadding = o.encode := by
  simp only [encode, withoutPadding, Base64.unpadded_encodeUrl, Option.map_map, List.map_map,
    Function.comp_def, UserEntity.withoutPadding_encode, CredentialDescriptor.withoutPadding_encode]

theorem RequestOptions.withoutPadding_encode (o : RequestOptions Bytes) :
    o.encode.withoutPadding = o.encode := by
  simp only [encode, withoutPadding, Base64.unpadded_encodeUrl, Option.map_map, List.map_map,
    Function.comp_def, CredentialDescriptor.withoutPadding_encode]

/-- If something is read exactly from what is written for it, so it is when it may be absent. -/
theorem decodeOption_eq_ok {α β γ : Type} {decode : α → Except DecodeError β} {trim : α → γ}
    {encode : β → γ} (h : ∀ a b, decode a = .ok b ↔ trim a = encode b) {a? : Option α}
    {b? : Option β} : decodeOption decode a? = .ok b? ↔ a?.map trim = b?.map encode := by
  cases a? with
  | none => cases b? <;> simp [decodeOption]
  | some a => cases b? <;> simp [decodeOption, h]

/-- Up to padding, a user is read from what is written for it and from nothing else. -/
theorem UserEntity.decode_eq_ok (u : UserEntity String) (v : UserEntity Bytes) :
    u.decode = .ok v ↔ u.withoutPadding = v.encode := by
  simp only [UserEntity.decode, Except.bind_eq_ok, decodeBinary_eq_ok, Except.pure_eq_ok,
    Except.ok.injEq]
  constructor
  · rintro ⟨id, hId, rfl⟩
    simp only [withoutPadding, encode, hId]
  · intro h
    cases v
    simp only [withoutPadding, encode, UserEntity.mk.injEq] at h
    obtain ⟨hId, rfl, rfl⟩ := h
    exact ⟨_, hId, rfl⟩

/-- A descriptor is, wherever in its list it stands. -/
theorem CredentialDescriptor.decode_eq_ok (field : String) (position : Nat)
    (d : CredentialDescriptor String) (e : CredentialDescriptor Bytes) :
    d.decode field position = .ok e ↔ d.withoutPadding = e.encode := by
  simp only [CredentialDescriptor.decode, Except.bind_eq_ok, decodeBinary_eq_ok, Except.pure_eq_ok,
    Except.ok.injEq]
  constructor
  · rintro ⟨id, hId, rfl⟩
    simp only [withoutPadding, encode, hId]
  · intro h
    cases e
    simp only [withoutPadding, encode, CredentialDescriptor.mk.injEq] at h
    obtain ⟨rfl, hId, rfl⟩ := h
    exact ⟨_, hId, rfl⟩

theorem decodeDescriptors_eq_ok (field : String) (position : Nat)
    (ds : List (CredentialDescriptor String)) (es : List (CredentialDescriptor Bytes)) :
    decodeDescriptors field position ds = .ok es ↔
      ds.map (·.withoutPadding) = es.map (·.encode) := by
  induction ds generalizing position es with
  | nil => cases es <;> simp [decodeDescriptors]
  | cons d ds ih =>
      cases es with
      | nil => simp [decodeDescriptors]
      | cons e es => simp [decodeDescriptors, ih, CredentialDescriptor.decode_eq_ok]

/-- Options for a creation are. -/
theorem CreationOptions.decode_eq_ok (o : CreationOptions String) (n : CreationOptions Bytes) :
    o.decode = .ok n ↔ o.withoutPadding = n.encode := by
  simp only [CreationOptions.decode, Except.bind_eq_ok, decodeBinary_eq_ok,
    decodeOption_eq_ok UserEntity.decode_eq_ok,
    decodeOption_eq_ok (decodeDescriptors_eq_ok "excludeCredentials" 0), Except.pure_eq_ok,
    Except.ok.injEq]
  constructor
  · rintro ⟨user, hUser, challenge, hChallenge, excludeCredentials, hExclude, rfl⟩
    simp only [withoutPadding, encode, hUser, hChallenge, hExclude]
  · intro h
    cases n
    simp only [withoutPadding, encode, CreationOptions.mk.injEq] at h
    obtain ⟨rfl, hUser, hChallenge, rfl, rfl, hExclude, rfl, rfl, rfl, rfl⟩ := h
    exact ⟨_, hUser, _, hChallenge, _, hExclude, rfl⟩

/-- Options for a request are. -/
theorem RequestOptions.decode_eq_ok (o : RequestOptions String) (n : RequestOptions Bytes) :
    o.decode = .ok n ↔ o.withoutPadding = n.encode := by
  simp only [RequestOptions.decode, Except.bind_eq_ok, decodeBinary_eq_ok,
    decodeOption_eq_ok (decodeDescriptors_eq_ok "allowCredentials" 0), Except.pure_eq_ok,
    Except.ok.injEq]
  constructor
  · rintro ⟨challenge, hChallenge, allowCredentials, hAllow, rfl⟩
    simp only [withoutPadding, encode, hChallenge, hAllow]
  · intro h
    cases n
    simp only [withoutPadding, encode, RequestOptions.mk.injEq] at h
    obtain ⟨hChallenge, rfl, rfl, hAllow, rfl, rfl, rfl⟩ := h
    exact ⟨_, hChallenge, _, hAllow, rfl⟩

/-- Up to padding, an envelope is read from the message that is written for it and from nothing
else. -/
theorem Message.decode_eq_ok (m : Message) (x : Envelope) :
    m.decode = .ok x ↔ m.withoutPadding = x.encode := by
  cases m <;> cases x <;>
    simp [decode, withoutPadding, Envelope.encode, CreationOptions.decode_eq_ok,
      RequestOptions.decode_eq_ok, CredentialMessage.decodeRegistration_eq_ok,
      CredentialMessage.decodeAssertion_eq_ok]

/-- The message that is written for an envelope has no padding. -/
theorem Envelope.withoutPadding_encode (x : Envelope) : x.encode.withoutPadding = x.encode := by
  cases x with
  | creationOptions o => exact congrArg _ o.withoutPadding_encode
  | requestOptions o => exact congrArg _ o.withoutPadding_encode
  | creationResult r =>
      exact congrArg _ (r.withoutPadding_encodeWith AttestationResponse.withoutPadding_encode)
  | requestResult a =>
      exact congrArg _ (a.withoutPadding_encodeWith AssertionResponse.withoutPadding_encode)

/-- Every envelope is read back from what is written for it. And what is written for an envelope that
was read from a message is the message itself, but for the padding of its binary members, which is
gone; no other message is read as that envelope. -/
theorem Envelope.codec_round_trip :
    (∀ x : Envelope, x.encode.decode = .ok x) ∧
      ∀ (m : Message) (x : Envelope), m.decode = .ok x ↔ x.encode = m.withoutPadding := by
  refine ⟨fun x => ?_, fun m x => ?_⟩
  · rw [Message.decode_eq_ok, x.withoutPadding_encode]
  · rw [Message.decode_eq_ok, eq_comm]

end RemoteSigning.Ceremony
