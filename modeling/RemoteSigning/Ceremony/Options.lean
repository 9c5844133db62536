import RemoteSigning.Ceremony.Kind
import RemoteSigning.Json.Decoder
/-!
# Options of a ceremony

What a device is asked to do. The records are generic in the type `β` of their binary members:
octets in a native record, base64 text in a message. Encoding maps one to the other member by
member, and nothing else changes. Members that are not declared here are carried along as they are.
-/

namespace RemoteSigning.Ceremony

open Json

/-- How far the user has to be verified. -/
inductive UserVerification where
  | required
  | preferred
  | discouraged
deriving DecidableEq, Repr

/-- How much the relying party wants to know of the authenticator. -/
inductive AttestationConveyance where
  | none
  | indirect
  | direct
  | enterprise
deriving DecidableEq, Repr

/-- How an authenticator is attached to the device. -/
inductive AuthenticatorAttachment where
  | platform
  | crossPlatform
deriving DecidableEq, Repr

/-- Whether the credential is to be stored on the authenticator. -/
inductive ResidentKeyRequirement where
  | discouraged
  | preferred
  | required
deriving DecidableEq, Repr

namespace UserVerification

def name : UserVerification → String
  | required => "required"
  | preferred => "preferred"
  | discouraged => "discouraged"

/-- The choices in the order in which messages list them. -/
def choices : List (String × UserVerification) :=
  [required, preferred, discouraged].map fun v => (v.name, v)

end UserVerification

namespace AttestationConveyance

def name : AttestationConveyance → String
  | none => "none"
  | indirect => "indirect"
  | direct => "direct"
  | enterprise => "enterprise"

/-- The choices in the order in which messages list them. -/
def choices : List (String × AttestationConveyance) :=
  [none, indirect, direct, enterprise].map fun v => (v.name, v)

end AttestationConveyance

namespace AuthenticatorAttachment

def name : AuthenticatorAttachment → String
  | platform => "platform"
  | crossPlatform => "cross-platform"

/-- The choices in the order in which messages list them. -/
def choices : List (String × AuthenticatorAttachment) :=
  [platform, crossPlatform].map fun v => (v.name, v)

end AuthenticatorAttachment

namespace ResidentKeyRequirement

def name : ResidentKeyRequirement → String
  | discouraged => "discouraged"
  | preferred => "preferred"
  | required => "required"

/-- The choices in the order in which messages list them. -/
def choices : List (String × ResidentKeyRequirement) :=
  [discouraged, preferred, required].map fun v => (v.name, v)

end ResidentKeyRequirement

/-- The relying party. -/
structure RelyingPartyEntity where
  id : Option String := none
  name : Option String := none
deriving DecidableEq, Repr

/-- The user for whom a credential is registered. -/
structure UserEntity (β : Type) where
  id : β
  name : Option String := none
  displayName : Option String := none
deriving DecidableEq, Repr

/-- A kind of key that the relying party accepts. -/
structure KeyParameter where
  type : String
  alg : Int
deriving DecidableEq, Repr

/-- A credential that is known to the relying party. -/
structure CredentialDescriptor (β : Type) where
  type : String
  id : β
  transports : Option (List String) := none
deriving DecidableEq, Repr

/-- What is asked of the authenticator. -/
structure AuthenticatorSelection where
  authenticatorAttachment : Option AuthenticatorAttachment := none
  residentKey : Option ResidentKeyRequirement := none
  requireResidentKey : Option Bool := none
  userVerification : Option UserVerification := none
deriving DecidableEq, Repr

/-- Options for a registration. -/
structure CreationOptions (β : Type) where
  rp : Option RelyingPartyEntity := none
  user : Option (UserEntity β) := none
  challenge : β
  pubKeyCredParams : Option (List KeyParameter) := none
  /-- Milliseconds. -/
  timeout : Option Nat := none
  excludeCredentials : Option (List (CredentialDescriptor β)) := none
  authenticatorSelection : Option AuthenticatorSelection := none
  attestation : Option AttestationConveyance := none
  extensions : Option Value := none
  extra : List (String × Value) := []
deriving DecidableEq

/-- Options for an assertion. -/
structure RequestOptions (β : Type) where
  challenge : β
  /-- Milliseconds. -/
  timeout : Option Nat := none
  rpId : Option String := none
  allowCredentials : Option (List (CredentialDescriptor β)) := none
  userVerification : Option UserVerification := none
  extensions : Option Value := none
  extra : List (String × Value) := []
deriving DecidableEq

def UserEntity.encode (u : UserEntity Bytes) : UserEntity String :=
  { u with id := Base64.encodeUrl u.id }

def UserEntity.decode (u : UserEntity String) : Except DecodeError (UserEntity Bytes) := do
  return { u with id := ← decodeBinary "user.id" u.id }

def CredentialDescriptor.encode (d : CredentialDescriptor Bytes) : CredentialDescriptor String :=
  { d with id := Base64.encodeUrl d.id }

/-- Reads the identifier of the descriptor at a position of a list. -/
def CredentialDescriptor.decode (field : String) (position : Nat)
    (d : CredentialDescriptor String) : Except DecodeError (CredentialDescriptor Bytes) := do
  return { d with id := ← decodeBinary (field ++ "[" ++ toString position ++ "].id") d.id }

/-- Reads the identifiers of descriptors, the first of which stands at `position`. -/
def decodeDescriptors (field : String) (position : Nat) :
    List (CredentialDescriptor String) → Except DecodeError (List (CredentialDescriptor Bytes))
  | [] => .ok []
  | d :: rest => do
    let d ← d.decode field position
    return d :: (← decodeDescriptors field (position + 1) rest)

def decodeOption (decode : α → Except ε β) : Option α → Except ε (Option β)
  | some a => (decode a).map some
  | none => .ok none

def CreationOptions.encode (o : CreationOptions Bytes) : CreationOptions String :=
  { o with
    user := o.user.map (·.encode)
    challenge := Base64.encodeUrl o.challenge
    excludeCredentials := o.excludeCredentials.map (·.map (·.encode)) }

/-- Reads the binary members: the user's, then the challenge, then those of the descriptors. -/
def CreationOptions.decode (o : CreationOptions String) :
    Except DecodeError (CreationOptions Bytes) := do
  let user ← decodeOption UserEntity.decode o.user
  let challenge ← decodeBinary "challenge" o.challenge
  let excludeCredentials ←
    decodeOption (decodeDescriptors "excludeCredentials" 0) o.excludeCredentials
  return { o with user, challenge, excludeCredentials }

def RequestOptions.encode (o : RequestOptions Bytes) : RequestOptions String :=
  { o with
    challenge := Base64.encodeUrl o.challenge
    allowCredentials := o.allowCredentials.map (·.map (·.encode)) }

/-- Reads the binary members: the challenge, then those of the descriptors. -/
def RequestOptions.decode (o : RequestOptions String) :
    Except DecodeError (RequestOptions Bytes) := do
  let challenge ← decodeBinary "challenge" o.challenge
  let allowCredentials ← decodeOption (decodeDescriptors "allowCredentials" 0) o.allowCredentials
  return { o with challenge, allowCredentials }

def listValue (write : α → Value) (l : List α) : Value := .array (l.map write)

def natValue (n : Nat) : Value := .integer n

def RelyingPartyEntity.form : Record RelyingPartyEntity where
  name := "RelyingPartyEntity"
  fields :=
    [.optional "id" .string fun v r => { r with id := v },
     .optional "name" .string fun v r => { r with name := v }]
  empty := {}
  undeclared := .dropped

def RelyingPartyEntity.toValue (r : RelyingPartyEntity) : Value :=
  .object (Value.optional "id" .string r.id ++ Value.optional "name" .string r.name)

def UserEntity.form : Record (UserEntity String) where
  name := "WireUserEntity"
  fields :=
    [.mandatory "id" .string fun v u => { u with id := v },
     .optional "name" .string fun v u => { u with name := v },
     .optional "displayName" .string fun v u => { u with displayName := v }]
  empty := { id := "" }
  undeclared := .dropped

/-- The record as a value, with binary members written by `binary`. -/
def UserEntity.toValue (binary : β → Value) (u : UserEntity β) : Value :=
  .object (("id", binary u.id) :: Value.optional "name" .string u.name
    ++ Value.optional "displayName" .string u.displayName)

def KeyParameter.form : Record KeyParameter where
  name := "PubKeyCredParam"
  fields :=
    [.mandatory "type" .string fun v p => { p with type := v },
     .mandatory "alg" .i64 fun v p => { p with alg := v }]
  empty := { type := "", alg := 0 }
  undeclared := .dropped

def KeyParameter.toValue (p : KeyParameter) : Value :=
  .object [("type", .string p.type), ("alg", .integer p.alg)]

def CredentialDescriptor.form : Record (CredentialDescriptor String) where
  name := "WireCredentialDescriptor"
  fields :=
    [.mandatory "type" .string fun v d => { d with type := v },
     .mandatory "id" .string fun v d => { d with id := v },
     .optional "transports" (.list .string) fun v d => { d with transports := v }]
  empty := { type := "", id := "" }
  undeclared := .dropped

/-- The record as a value, with binary members written by `binary`. -/
def CredentialDescriptor.toValue (binary : β → Value) (d : CredentialDescriptor β) : Value :=
  .object (("type", .string d.type) :: ("id", binary d.id)
    :: Value.optional "transports" (listValue .string) d.transports)

def AuthenticatorSelection.form : Record AuthenticatorSelection where
  name := "AuthenticatorSelection"
  fields :=
    [.optional "authenticatorAttachment" (.choice AuthenticatorAttachment.choices)
      fun v s => { s with authenticatorAttachment := v },
     .optional "residentKey" (.choice ResidentKeyRequirement.choices)
      fun v s => { s with residentKey := v },
     .optional "requireResidentKey" .bool fun v s => { s with requireResidentKey := v },
     .optional "userVerification" (.choice UserVerification.choices)
      fun v s => { s with userVerification := v }]
  empty := {}
  undeclared := .dropped

def AuthenticatorSelection.toValue (s : AuthenticatorSelection) : Value :=
  .object (
    Value.optional "authenticatorAttachment" (fun v => .string v.name) s.authenticatorAttachment
    ++ Value.optional "residentKey" (fun v => .string v.name) s.residentKey
    ++ Value.optional "requireResidentKey" .bool s.requireResidentKey
    ++ Value.optional "userVerification" (fun v => .string v.name) s.userVerification)

def CreationOptions.form : Record (CreationOptions String) where
  name := "WireCreationOptions"
  fields :=
    [.optional "rp" RelyingPartyEntity.form.decoder fun v o => { o with rp := v },
     .optional "user" UserEntity.form.decoder fun v o => { o with user := v },
     .mandatory "challenge" .string fun v o => { o with challenge := v },
     .optional "pubKeyCredParams" (.list KeyParameter.form.decoder)
      fun v o => { o with pubKeyCredParams := v },
     .optional "timeout" .u64 fun v o => { o with timeout := v },
     .optional "excludeCredentials" (.list CredentialDescriptor.form.decoder)
      fun v o => { o with excludeCredentials := v },
     .optional "authenticatorSelection" AuthenticatorSelection.form.decoder
      fun v o => { o with authenticatorSelection := v },
     .optional "attestation" (.choice AttestationConveyance.choices)
      fun v o => { o with attestation := v },
     .optional "extensions" .any fun v o => { o with extensions := v }]
  empty := { challenge := "" }
  undeclared := .kept fun name v o => { o with extra := Value.insertMember name v o.extra }

/-- The declared members that are present, with binary members written by `binary`. -/
def CreationOptions.members (binary : β → Value) (o : CreationOptions β) : List (String × Value) :=
  Value.optional "rp" RelyingPartyEntity.toValue o.rp
  ++ Value.optional "user" (UserEntity.toValue binary) o.user
  ++ ("challenge", binary o.challenge)
  :: Value.optional "pubKeyCredParams" (listValue KeyParameter.toValue) o.pubKeyCredParams
  ++ Value.optional "timeout" natValue o.timeout
  ++ Value.optional "excludeCredentials" (listValue (CredentialDescriptor.toValue binary))
    o.excludeCredentials
  ++ Value.optional "authenticatorSelection" AuthenticatorSelection.toValue
    o.authenticatorSelection
  ++ Value.optional "attestation" (fun v => .string v.name) o.attestation
  ++ Value.optional "extensions" id o.extensions

/-- The options as a value: the declared members, then all others. -/
def CreationOptions.toValue (o : CreationOptions String) : Value :=
  .object (o.members .string ++ o.extra)

def RequestOptions.form : Record (RequestOptions String) where
  name := "WireRequestOptions"
  fields :=
    [.mandatory "challenge" .string fun v o => { o with challenge := v },
     .optional "timeout" .u64 fun v o => { o with timeout := v },
     .optional "rpId" .string fun v o => { o with rpId := v },
     .optional "allowCredentials" (.list CredentialDescriptor.form.decoder)
      fun v o => { o with allowCredentials := v },
     .optional "userVerification" (.choice UserVerification.choices)
      fun v o => { o with userVerification := v },
     .optional "extensions" .any fun v o => { o with extensions := v }]
  empty := { challenge := "" }
  undeclared := .kept fun name v o => { o with extra := Value.insertMember name v o.extra }

/-- The declared members that are present, with binary members written by `binary`. -/
def RequestOptions.members (binary : β → Value) (o : RequestOptions β) : List (String × Value) :=
  ("challenge", binary o.challenge)
  :: Value.optional "timeout" natValue o.timeout
  ++ Value.optional "rpId" .string o.rpId
  ++ Value.optional "allowCredentials" (listValue (CredentialDescriptor.toValue binary))
    o.allowCredentials
  ++ Value.optional "userVerification" (fun v => .string v.name) o.userVerification
  ++ Value.optional "extensions" id o.extensions

/-- The options as a value: the declared members, then all others. -/
def RequestOptions.toValue (o : RequestOptions String) : Value :=
  .object (o.members .string ++ o.extra)

end RemoteSigning.Ceremony
