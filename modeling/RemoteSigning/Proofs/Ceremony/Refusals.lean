import RemoteSigning.Proofs.Ceremony.Envelopes

/-!
# What decoding refuses

A message is decoded exactly if it has no member of the other ceremony and each of its binary members
is base64. Any other message is refused for its first fault. Members of the other ceremony come
before all else; after them the binary members are read one after the other.
-/

namespace RemoteSigning.Ceremony

open Base64 (IsUrlText)

variable {α β : Type} {r : Except DecodeError α}

/-- A binary member of a message: its place, by which an error names it, and its text. -/
structure BinaryMember where
  field : String
  text : String
deriving DecidableEq, Repr

variable {members first rest : List BinaryMember}

/-- Reads binary members one after the other. -/
def readBinaries : List BinaryMember → Except DecodeError Unit
  | [] => .ok ()
  | b :: rest => do
    let _ ← decodeBinary b.field b.text
    readBinaries rest

/-- A binary member that is refused is refused under its own name. -/
theorem decodeBinary_eq_error {field text : String} {e : DecodeError} :
    decodeBinary field text = .error e ↔
      ∃ fault, Base64.decodeUrlLenient text = .error fault ∧ e = .binary field fault := by
  rw [decodeBinary]
  cases Base64.decodeUrlLenient text with
  | ok bytes => simp
  | error fault => simp [eq_comm]

/-- Binary members are all read exactly if each of them has a text of the alphabet for links. -/
theorem readBinaries_eq_ok : readBinaries members = .ok () ↔ ∀ b ∈ members, IsUrlText b.text := by
  induction members with
  | nil => simp [readBinaries]
  | cons b rest ih =>
      simp only [readBinaries, Except.bind_eq_ok, ih, List.forall_mem_cons, exists_and_right,
        decodeBinary_eq_ok, IsUrlText]

theorem readBinaries_append :
    readBinaries (first ++ rest) = readBinaries first >>= fun _ => readBinaries rest := by
  induction first with
  | nil => rfl
  | cons b first ih =>
      rw [List.cons_append, readBinaries, readBinaries, ih]
      cases decodeBinary b.field b.text <;> rfl

/-- The first binary member that is not base64 is reported, whatever comes after it. -/
theorem readBinaries_eq_error {e : DecodeError} :
    readBinaries members = .error e ↔ ∃ before b after fault, members = before ++ b :: after ∧
      (∀ b' ∈ before, IsUrlText b'.text) ∧ Base64.decodeUrlLenient b.text = .error fault ∧
      e = .binary b.field fault := by
  constructor
  · intro h
    induction members with
    | nil => cases h
    | cons b rest ih =>
        rw [readBinaries] at h
        cases hRead : decodeBinary b.field b.text with
        | error e' =>
            rw [hRead] at h
            cases h
            obtain ⟨fault, hFault, hError⟩ := decodeBinary_eq_error.mp hRead
            exact ⟨[], b, rest, fault, rfl, nofun, hFault, hError⟩
        | ok bytes =>
            rw [hRead] at h
            obtain ⟨before, b', after, fault, rfl, hValid, hFault, hError⟩ := ih h
            have hFirst : IsUrlText b.text := ⟨bytes, decodeBinary_eq_ok.mp hRead⟩
            exact ⟨b :: before, b', after, fault, rfl, List.forall_mem_cons.mpr ⟨hFirst, hValid⟩,
              hFault, hError⟩
  · rintro ⟨before, b, after, fault, rfl, hValid, hFault, hError⟩
    rw [readBinaries_append, readBinaries_eq_ok.mpr hValid, Except.ok_bind, readBinaries,
      decodeBinary_eq_error.mpr ⟨fault, hFault, hError⟩, Except.error_bind]

/-- Whether a reader fails as reading some binary members does, and otherwise succeeds. -/
def Follows (r : Except DecodeError α) (members : List BinaryMember) : Prop :=
  r.map (fun _ => ()) = readBinaries members

theorem follows_ok (a : α) : Follows (.ok a) [] := rfl

/-- Readers that come one after the other follow their members one after the other. -/
theorem Follows.bind {f : α → Except DecodeError β} (h : Follows r first)
    (hRest : ∀ a, Follows (f a) rest) : Follows (r >>= f) (first ++ rest) := by
  rw [Follows, readBinaries_append, ← h]
  cases r with
  | error e => rfl
  | ok a => exact hRest a

theorem Follows.map (h : Follows r members) (f : α → β) : Follows (r.map f) members := by
  rw [Follows, ← h]
  cases r <;> rfl

theorem Follows.bind_pure (h : Follows r members) (f : α → β) :
    Follows (r >>= fun a => pure (f a)) members := by
  rw [Follows, ← h]
  cases r <;> rfl

theorem follows_decodeBinary (field text : String) :
    Follows (decodeBinary field text) [⟨field, text⟩] := by
  rw [Follows, readBinaries]
  cases decodeBinary field text <;> rfl

/-- A binary member that may be absent. -/
def optionalBinary (field : String) (text? : Option String) : List BinaryMember :=
  text?.toList.map fun text => ⟨field, text⟩

theorem follows_decodeBinary? (field : String) (text? : Option String) :
    Follows (decodeBinary? field text?) (optionalBinary field text?) := by
  cases text? with
  | none => exact follows_ok none
  | some text => exact (follows_decodeBinary field text).map some

/-- What is absent has no binary members. -/
theorem follows_decodeOption {decode : α → Except DecodeError β} {members : α → List BinaryMember}
    (h : ∀ a, Follows (decode a) (members a)) (a? : Option α) :
    Follows (decodeOption decode a?) (a?.toList.flatMap members) := by
  cases a? with
  | none => exact follows_ok none
  | some a =>
      rw [Option.toList_some, List.flatMap_singleton]
      exact (h a).map some

/-- The identifiers of descriptors, each with its position in the list. -/
def descriptorBinaries (field : String) (ds : List (CredentialDescriptor String)) :
    List BinaryMember :=
  ds.mapIdx fun i d => ⟨field ++ "[" ++ toString i ++ "].id", d.id⟩

/-- The binary members of the options in the order in which they are read. -/
def CreationOptions.binaries (o : CreationOptions String) : List BinaryMember :=
  o.user.toList.flatMap (fun u => [⟨"user.id", u.id⟩]) ++ (⟨"challenge", o.challenge⟩ ::
    o.excludeCredentials.toList.flatMap (descriptorBinaries "excludeCredentials"))

/-- The binary members of the options for a request in the order in which they are read. -/
def RequestOptions.binaries (o : RequestOptions String) : List BinaryMember :=
  ⟨"challenge", o.challenge⟩ ::
    o.allowCredentials.toList.flatMap (descriptorBinaries "allowCredentials")

/-- The binary members of an answer, without those of the other ceremony. -/
def ResponseMessage.binaries (r : ResponseMessage) : Kind → List BinaryMember
  | .create =>
    optionalBinary "response.clientDataJSON" r.clientDataJSON
      ++ optionalBinary "response.attestationObject" r.attestationObject
  | .get =>
    optionalBinary "response.clientDataJSON" r.clientDataJSON
      ++ (optionalBinary "response.authenticatorData" r.authenticatorData
      ++ (optionalBinary "response.signature" r.signature
      ++ optionalBinary "response.userHandle" r.userHandle))

/-- The binary members that are read from a credential of a kind, in that order. -/
def CredentialMessage.binaries (m : CredentialMessage) (kind : Kind) : List BinaryMember :=
  optionalBinary "rawId" m.rawId ++ m.response.binaries kind

/-- The binary members that are present, in the order in which they are read. -/
def Message.binaries : Message → List BinaryMember
  | .creationOptions o => o.binaries
  | .requestOptions o => o.binaries
  | .creationResult c => c.binaries .create
  | .requestResult c => c.binaries .get

/-- Descriptors are read from first to last, each under its position. -/
theorem follows_decodeDescriptors (field : String) (ds : List (CredentialDescriptor String)) :
    Follows (decodeDescriptors field 0 ds) (descriptorBinaries field ds) := by
  have hFrom (position : Nat) : Follows (decodeDescriptors field position ds)
      (ds.mapIdx fun i d => ⟨field ++ "[" ++ toString (position + i) ++ "].id", d.id⟩) := by
    induction ds generalizing position with
    | nil => exact follows_ok []
    | cons d ds ih =>
        have hNext := ih (position + 1)
        simp only [Nat.add_right_comm position 1] at hNext
        rw [List.mapIdx_cons, decodeDescriptors]
        exact ((follows_decodeBinary _ d.id).bind_pure _).bind fun _ => hNext.bind_pure _
  simpa only [descriptorBinaries, Nat.zero_add] using hFrom 0

theorem UserEntity.follows_decode (u : UserEntity String) :
    Follows u.decode [⟨"user.id", u.id⟩] := by
  rw [decode]
  exact (follows_decodeBinary "user.id" u.id).bind_pure _

/-- Options for a creation fail with the first of their binary members that cannot be read. -/
theorem CreationOptions.follows_decode (o : CreationOptions String) :
    Follows o.decode o.binaries := by
  rw [decode]
  exact (follows_decodeOption UserEntity.follows_decode _).bind fun _ =>
    (follows_decodeBinary "challenge" o.challenge).bind fun _ =>
    (follows_decodeOption (follows_decodeDescriptors "excludeCredentials") _).bind_pure _

/-- Options for a request do as well. -/
theorem RequestOptions.follows_decode (o : RequestOptions String) :
    Follows o.decode o.binaries := by
  rw [decode]
  exact (follows_decodeBinary "challenge" o.challenge).bind fun _ =>
    (follows_decodeOption (follows_decodeDescriptors "allowCredentials") _).bind_pure _

/-- So does the answer to a creation. -/
theorem ResponseMessage.follows_decodeAttestation (r : ResponseMessage) :
    Follows r.decodeAttestation (r.binaries .create) := by
  rw [decodeAttestation]
  exact (follows_decodeBinary? _ _).bind fun _ => (follows_decodeBinary? _ _).bind_pure _

/-- So does the answer to a request. -/
theorem ResponseMessage.follows_decodeAssertion (r : ResponseMessage) :
    Follows r.decodeAssertion (r.binaries .get) := by
  rw [decodeAssertion]
  exact (follows_decodeBinary? _ _).bind fun _ => (follows_decodeBinary? _ _).bind fun _ =>
    (follows_decodeBinary? _ _).bind fun _ => (follows_decodeBinary? _ _).bind_pure _

/-- The name of a member, if it is present. -/
def named (name : String) (a? : Option α) : List String := a?.toList.map fun _ => name

/-- The members that an answer has and that belong to the other ceremony, in the order in which they
are looked for. -/
def ResponseMessage.foreign (r : ResponseMessage) : Kind → List String
  | .create =>
    named "response.authenticatorData" r.authenticatorData
      ++ (named "response.signature" r.signature ++ named "response.userHandle" r.userHandle)
  | .get =>
    named "response.attestationObject" r.attestationObject
      ++ named "response.transports" r.transports

/-- The members that belong to the other ceremony, with the one in which they may not be. -/
def Message.foreign : Message → List (String × Kind)
  | .creationOptions _ => []
  | .requestOptions _ => []
  | .creationResult c => (c.response.foreign .create).map (·, .create)
  | .requestResult c => (c.response.foreign .get).map (·, .get)

/-- Refuses the first member of the other kind, if there is one. -/
def refuseForeign : List (String × Kind) → Except DecodeError Unit
  | [] => .ok ()
  | (field, kind) :: _ => .error (.foreignMember field kind)

/-- The foreign members are those of the other kind that are there. -/
theorem ResponseMessage.foreign_eq (r : ResponseMessage) (kind : Kind) :
    r.foreign kind = ((r.foreignTo kind).filter (·.2)).map (·.1) := by
  have hNamed {α : Type} (name : String) (a? : Option α) (l : List (String × Bool)) :
      (((name, a?.isSome) :: l).filter (·.2)).map (·.1) =
        named name a? ++ (l.filter (·.2)).map (·.1) := by
    cases a? <;> rfl
  cases kind <;>
    simp only [foreign, foreignTo, hNamed, List.filter_nil, List.map_nil, List.append_nil]

/-- Checking the kind refuses the first foreign member. -/
theorem CredentialMessage.checkKind_eq (m : CredentialMessage) (kind : Kind) :
    m.checkKind kind = refuseForeign ((m.response.foreign kind).map (·, kind)) := by
  rw [checkKind, ResponseMessage.foreign_eq, ← List.head?_filter]
  cases (m.response.foreignTo kind).filter (·.2) <;> rfl

/-- A credential is checked for foreign members before any of its binary members is read. -/
theorem CredentialMessage.decodeWith_eq {ρ : Type} {decode : ResponseMessage → Except DecodeError ρ}
    {kind : Kind} (m : CredentialMessage) (h : Follows (decode m.response) (m.response.binaries kind)) :
    (m.decodeWith kind decode).map (fun _ => ()) =
      refuseForeign ((m.response.foreign kind).map (·, kind)) >>= fun _ =>
        readBinaries (m.binaries kind) := by
  rw [decodeWith, checkKind_eq]
  cases refuseForeign ((m.response.foreign kind).map (·, kind)) with
  | error e => rfl
  | ok _ => exact (follows_decodeBinary? "rawId" m.rawId).bind fun _ => h.bind_pure _

/-- Decoding is a search for faults: for members of the other ceremony, and then for binary members
that are not base64. -/
theorem Message.decode_eq (m : Message) :
    m.decode.map (fun _ => ()) =
      refuseForeign m.foreign >>= fun _ => readBinaries m.binaries := by
  cases m with
  | creationOptions o =>
      rw [decode, foreign, refuseForeign, Except.ok_bind, binaries]
      exact o.follows_decode.map _
  | requestOptions o =>
      rw [decode, foreign, refuseForeign, Except.ok_bind, binaries]
      exact o.follows_decode.map _
  | creationResult c =>
      refine Eq.trans ?_ (c.decodeWith_eq c.response.follows_decodeAttestation)
      rw [decode, CredentialMessage.decodeRegistration]
      cases c.decodeWith .create ResponseMessage.decodeAttestation <;> rfl
  | requestResult c =>
      refine Eq.trans ?_ (c.decodeWith_eq c.response.follows_decodeAssertion)
      rw [decode, CredentialMessage.decodeAssertion]
      cases c.decodeWith .get ResponseMessage.decodeAssertion <;> rfl

/-- The first fault of a message, as the error that reports it. -/
inductive Message.FirstFault (m : Message) : DecodeError → Prop where
  /-- It has a member of the other ceremony. What its binary members hold does not matter. -/
  | foreign {field : String} {kind : Kind} {others : List (String × Kind)}
      (present : m.foreign = (field, kind) :: others) : FirstFault m (.foreignMember field kind)
  /-- A binary member is not base64, and all before it are. -/
  | binary {before after : List BinaryMember} {b : BinaryMember} {fault : Base64.Fault}
      (own : m.foreign = []) (order : m.binaries = before ++ b :: after)
      (valid : ∀ b' ∈ before, IsUrlText b'.text)
      (refused : Base64.decodeUrlLenient b.text = .error fault) :
      FirstFault m (.binary b.field fault)

/-- A message is accepted exactly if it has no foreign member and all its binary members can be
read. -/
theorem Message.decode_isOk_iff (m : Message) :
    (∃ x, m.decode = .ok x) ↔ m.foreign = [] ∧ ∀ b ∈ m.binaries, IsUrlText b.text := by
  have hNone : refuseForeign m.foreign = .ok () ↔ m.foreign = [] := by
    cases m.foreign <;> simp [refuseForeign]
  have hDecode : (∃ x, m.decode = .ok x) ↔ m.decode.map (fun _ => ()) = .ok () := by simp
  rw [hDecode, m.decode_eq, Except.bind_eq_ok, ← readBinaries_eq_ok, ← hNone]
  exact ⟨fun ⟨_, hOwn, hValid⟩ => ⟨hOwn, hValid⟩, fun ⟨hOwn, hValid⟩ => ⟨(), hOwn, hValid⟩⟩

/-- A message is refused for its first fault and for nothing else. -/
theorem Message.decode_eq_error (m : Message) (e : DecodeError) :
    m.decode = .error e ↔ m.FirstFault e := by
  rw [← Except.map_eq_error (f := fun _ => ()), m.decode_eq]
  constructor
  · intro h
    cases hForeign : m.foreign with
    | cons member others =>
        rw [hForeign] at h
        cases h
        exact .foreign hForeign
    | nil =>
        rw [hForeign] at h
        obtain ⟨before, b, after, fault, hOrder, hValid, hRefused, rfl⟩ := readBinaries_eq_error.mp h
        exact .binary hForeign hOrder hValid hRefused
  · rintro (⟨hPresent⟩ | ⟨hOwn, hOrder, hValid, hRefused⟩)
    · rw [hPresent]
      rfl
    · rw [hOwn]
      exact readBinaries_eq_error.mpr ⟨_, _, _, _, hOrder, hValid, hRefused, rfl⟩

def Kind.other : Kind → Kind
  | .create => .get
  | .get => .create

/-- A message that holds the result of a ceremony. -/
def Message.result (c : CredentialMessage) : Kind → Message
  | .create => .creationResult c
  | .get => .requestResult c

/-- A credential as the result in an envelope. -/
def Credential.envelope : Credential → Envelope
  | .registration r => .creationResult r
  | .assertion a => .requestResult a

/-- Whether a credential has no member that only the results of its ceremony have. -/
def Credential.IsPlain : Credential → Prop
  | .registration r => r.response.attestationObject = none ∧ r.response.transports = none
  | .assertion a =>
    a.response.authenticatorData = none ∧ a.response.signature = none ∧ a.response.userHandle = none

/-- The result in an envelope is read as the credential on its own is. -/
theorem CredentialMessage.decode_result (m : CredentialMessage) (kind : Kind) :
    (Message.result m kind).decode = (m.decode kind).map Credential.envelope := by
  cases kind with
  | create =>
      rw [Message.result, Message.decode, decode]
      cases m.decodeRegistration <;> rfl
  | get =>
      rw [Message.result, Message.decode, decode]
      cases m.decodeAssertion <;> rfl

/-- The answer to a creation could be one to a request only if it has none of its own members. -/
theorem AttestationResponse.exists_encode_eq (r : AttestationResponse) :
    (∃ s : AssertionResponse, r.encode = s.encode) ↔
      r.attestationObject = none ∧ r.transports = none := by
  constructor
  · rintro ⟨s, hSame⟩
    simp only [encode, AssertionResponse.encode, ResponseMessage.mk.injEq,
      Option.map_eq_none_iff] at hSame
    obtain ⟨-, hObject, hTransports, -⟩ := hSame
    exact ⟨hObject, hTransports⟩
  · rintro ⟨hObject, hTransports⟩
    use { clientDataJSON := r.clientDataJSON }
    simp only [encode, AssertionResponse.encode, hObject, hTransports, Option.map_none]

/-- The answer to a request could be one to a creation only if it has none of its own members. -/
theorem AssertionResponse.exists_encode_eq (s : AssertionResponse) :
    (∃ r : AttestationResponse, s.encode = r.encode) ↔
      s.authenticatorData = none ∧ s.signature = none ∧ s.userHandle = none := by
  constructor
  · rintro ⟨r, hSame⟩
    simp only [encode, AttestationResponse.encode, ResponseMessage.mk.injEq,
      Option.map_eq_none_iff] at hSame
    obtain ⟨-, -, -, hData, hSignature, hUser⟩ := hSame
    exact ⟨hData, hSignature, hUser⟩
  · rintro ⟨hData, hSignature, hUser⟩
    use { clientDataJSON := s.clientDataJSON }
    simp only [encode, AttestationResponse.encode, hData, hSignature, hUser, Option.map_none]

/-- Results of both ceremonies are written alike if their answers are. -/
theorem CeremonyResult.exists_encodeWith_eq {ρ σ : Type} (c : CeremonyResult ρ)
    (encode : ρ → ResponseMessage) (encode' : σ → ResponseMessage) :
    (∃ c' : CeremonyResult σ, c.encodeWith encode = c'.encodeWith encode') ↔
      ∃ response, encode c.response = encode' response := by
  constructor
  · rintro ⟨c', hSame⟩
    exact ⟨c'.response, congrArg CredentialMessage.response hSame⟩
  · rintro ⟨response, hSame⟩
    use { c with response := response }
    simp only [encodeWith, hSame]

/-- What is written for a credential is read as a result of the other ceremony only if it says
nothing of its own. -/
theorem Credential.decode_other_iff (c : Credential) :
    (∃ c', c.encode.decode c.kind.other = .ok c') ↔ c.IsPlain := by
  simp only [CredentialMessage.decode_eq_ok, c.withoutPadding_encode]
  cases c with
  | registration r =>
      have hAnswers := (r.exists_encodeWith_eq AttestationResponse.encode
        AssertionResponse.encode).trans r.response.exists_encode_eq
      rw [IsPlain, ← hAnswers]
      constructor
      · rintro ⟨_ | a, hKind, hSame⟩
        · cases hKind
        · exact ⟨a, hSame⟩
      · rintro ⟨a, hSame⟩
        exact ⟨.assertion a, rfl, hSame⟩
  | assertion a =>
      have hAnswers := (a.exists_encodeWith_eq AssertionResponse.encode
        AttestationResponse.encode).trans a.response.exists_encode_eq
      rw [IsPlain, ← hAnswers]
      constructor
      · rintro ⟨r | _, hKind, hSame⟩
        · exact ⟨r, hSame⟩
        · cases hKind
      · rintro ⟨r, hSame⟩
        exact ⟨.registration r, rfl, hSame⟩

/-- A message is decoded exactly if it has no member of the other ceremony and all its binary members
are base64, and is otherwise refused for its first fault. A message of a credential is decoded as a
result of the ceremony asked for, and as one of the other ceremony only if it has no member of
either. -/
theorem decode_language :
    (∀ m : Message,
      ((∃ x, m.decode = .ok x) ↔ m.foreign = [] ∧ ∀ b ∈ m.binaries, IsUrlText b.text) ∧
      ∀ e, m.decode = .error e ↔ m.FirstFault e) ∧
    (∀ (m : CredentialMessage) (kind : Kind),
      (m.decode kind).map Credential.envelope = (Message.result m kind).decode ∧
      ∀ c, m.decode kind = .ok c → c.kind = kind) ∧
    ∀ c : Credential, (∃ c', c.encode.decode c.kind.other = .ok c') ↔ c.IsPlain := by
  constructor
  · intro m
    exact ⟨m.decode_isOk_iff, m.decode_eq_error⟩
  constructor
  · intro m kind
    constructor
    · exact (m.decode_result kind).symm
    · intro c hDecode
      exact ((m.decode_eq_ok kind c).mp hDecode).1
  · exact Credential.decode_other_iff

/-- A request in which two of the identifiers of credentials are not base64. -/
def doubtfulRequest : RequestOptions String where
  challenge := "_-8="
  allowCredentials := some [⟨"public-key", "AQI=", none⟩, ⟨"public-key", "A", none⟩,
    ⟨"public-key", "+/", none⟩]

/-- An assertion in the place of a registration. Nothing in it is base64. -/
def misplacedResult : CredentialMessage where
  rawId := some "A"
  response := { signature := some "+", userHandle := some "/" }

/-- An assertion without members of its own. -/
def plainAssertion : Assertion where
  rawId := some [1, 2]
  response := { clientDataJSON := some [255] }

/-- A descriptor is named with its position, a foreign member by its path; and an answer without any
member of its own passes for one of the other kind. -/
theorem faults_named :
    (Message.requestOptions doubtfulRequest).decode =
      .error (.binary "allowCredentials[1].id" (.length 1)) ∧
    (Message.creationResult misplacedResult).decode =
      .error (.foreignMember "response.signature" .create) ∧
    (Credential.assertion plainAssertion).kind = .get ∧
    ∃ c, (Credential.assertion plainAssertion).encode.decode .create = .ok c := by
  obtain ⟨hMessages, hCredentials, hOther⟩ := decode_language
  and_intros
  · have hChallenge : IsUrlText "_-8=" := ⟨[255, 239], by decide +kernel⟩
    have hFirst : IsUrlText "AQI=" := ⟨[1, 2], by decide +kernel⟩
    have hBefore : ∀ b ∈ [⟨"challenge", "_-8="⟩, ⟨"allowCredentials[0].id", "AQI="⟩],
        IsUrlText (BinaryMember.text b) :=
      List.forall_mem_cons.mpr ⟨hChallenge, List.forall_mem_singleton.mpr hFirst⟩
    have hOrder : (Message.requestOptions doubtfulRequest).binaries =
        [⟨"challenge", "_-8="⟩, ⟨"allowCredentials[0].id", "AQI="⟩] ++
          ⟨"allowCredentials[1].id", "A"⟩ :: [⟨"allowCredentials[2].id", "+/"⟩] := by
      decide +kernel
    exact ((hMessages _).2 _).mpr (.binary rfl hOrder hBefore (by decide +kernel))
  · have hForeign : (Message.creationResult misplacedResult).foreign =
        [("response.signature", .create), ("response.userHandle", .create)] := rfl
    exact ((hMessages _).2 _).mpr (.foreign hForeign)
  · have hDecode : (Credential.assertion plainAssertion).encode.decode .get =
        .ok (.assertion plainAssertion) := by
      decide +kernel
    exact (hCredentials _ .get).2 _ hDecode
  · exact (hOther (.assertion plainAssertion)).mpr ⟨rfl, rfl, rfl⟩

end RemoteSigning.Ceremony
