import RemoteSigning.Ceremony.Options
/-!
# Credentials

What an authenticator returns. A native credential holds octets and only the members of its
ceremony. A `CredentialMessage` is its JSON form, in which the members of both ceremonies have a
place; decoding refuses a message that has a member of the other ceremony.
-/

namespace RemoteSigning.Ceremony

open Json

/-- The authenticator's answer to a registration. -/
structure AttestationResponse where
  clientDataJSON : Option Bytes := none
  attestationObject : Option Bytes := none
  transports : Option (List String) := none
deriving DecidableEq, Repr

/-- The authenticator's answer to a request for an assertion. -/
structure AssertionResponse where
  clientDataJSON : Option Bytes := none
  authenticatorData : Option Bytes := none
  signature : Option Bytes := none
  userHandle : Option Bytes := none
deriving DecidableEq, Repr

/-- The result of a ceremony, with the answer of an authenticator of type `ρ`. -/
structure CeremonyResult (ρ : Type) where
  id : Option String := none
  rawId : Option Bytes := none
  type : Option String := none
  authenticatorAttachment : Option AuthenticatorAttachment := none
  response : ρ
  clientExtensionResults : Option Value := none
deriving DecidableEq

abbrev Registration := CeremonyResult AttestationResponse

abbrev Assertion := CeremonyResult AssertionResponse

/-- The result of either ceremony. -/
inductive Credential where
  | registration (r : Registration)
  | assertion (a : Assertion)
deriving DecidableEq

/-- The ceremony of which it is the result. -/
def Credential.kind : Credential → Kind
  | .registration _ => .create
  | .assertion _ => .get

def Credential.id : Credential → Option String
  | .registration r => r.id
  | .assertion a => a.id

/-- The answer of an authenticator as text. -/
structure ResponseMessage where
  clientDataJSON : Option String := none
  attestationObject : Option String := none
  transports : Option (List String) := none
  authenticatorData : Option String := none
  signature : Option String := none
  userHandle : Option String := none
deriving DecidableEq, Repr

/-- A credential as text. -/
structure CredentialMessage where
  id : Option String := none
  rawId : Option String := none
  type : Option String := none
  authenticatorAttachment : Option AuthenticatorAttachment := none
  response : ResponseMessage := {}
  clientExtensionResults : Option Value := none
deriving DecidableEq

def AttestationResponse.encode (r : AttestationResponse) : ResponseMessage where
  clientDataJSON := r.clientDataJSON.map Base64.encodeUrl
  attestationObject := r.attestationObject.map Base64.encodeUrl
  transports := r.transports

def AssertionResponse.encode (r : AssertionResponse) : ResponseMessage where
  clientDataJSON := r.clientDataJSON.map Base64.encodeUrl
  authenticatorData := r.authenticatorData.map Base64.encodeUrl
  signature := r.signature.map Base64.encodeUrl
  userHandle := r.userHandle.map Base64.encodeUrl

/-- The result as text, given that of the answer. -/
def CeremonyResult.encodeWith (encode : ρ → ResponseMessage) (c : CeremonyResult ρ) :
    CredentialMessage where
  id := c.id
  rawId := c.rawId.map Base64.encodeUrl
  type := c.type
  authenticatorAttachment := c.authenticatorAttachment
  response := encode c.response
  clientExtensionResults := c.clientExtensionResults

def Credential.encode : Credential → CredentialMessage
  | .registration r => r.encodeWith AttestationResponse.encode
  | .assertion a => a.encodeWith AssertionResponse.encode

/-- The members of an answer that belong to the other ceremony, with whether they are present. -/
def ResponseMessage.foreignTo (r : ResponseMessage) : Kind → List (String × Bool)
  | .create =>
    [("response.authenticatorData", r.authenticatorData.isSome),
     ("response.signature", r.signature.isSome),
     ("response.userHandle", r.userHandle.isSome)]
  | .get =>
    [("response.attestationObject", r.attestationObject.isSome),
     ("response.transports", r.transports.isSome)]

/-- Refuses a message that has a member of the other ceremony. -/
def CredentialMessage.checkKind (m : CredentialMessage) (kind : Kind) : Except DecodeError Unit :=
  match (m.response.foreignTo kind).find? (·.2) with
  | some (field, _) => .error (.foreignMember field kind)
  | none => .ok ()

def ResponseMessage.decodeAttestation (r : ResponseMessage) :
    Except DecodeError AttestationResponse := do
  let clientDataJSON ← decodeBinary? "response.clientDataJSON" r.clientDataJSON
  let attestationObject ← decodeBinary? "response.attestationObject" r.attestationObject
  return { clientDataJSON, attestationObject, transports := r.transports }

def ResponseMessage.decodeAssertion (r : ResponseMessage) :
    Except DecodeError AssertionResponse := do
  let clientDataJSON ← decodeBinary? "response.clientDataJSON" r.clientDataJSON
  let authenticatorData ← decodeBinary? "response.authenticatorData" r.authenticatorData
  let signature ← decodeBinary? "response.signature" r.signature
  let userHandle ← decodeBinary? "response.userHandle" r.userHandle
  return { clientDataJSON, authenticatorData, signature, userHandle }

/-- Reads the result of a ceremony, given how its answer is read. -/
def CredentialMessage.decodeWith (m : CredentialMessage) (kind : Kind)
    (decode : ResponseMessage → Except DecodeError ρ) : Except DecodeError (CeremonyResult ρ) := do
  m.checkKind kind
  let rawId ← decodeBinary? "rawId" m.rawId
  let response ← decode m.response
  return {
    id := m.id
    rawId
    type := m.type
    authenticatorAttachment := m.authenticatorAttachment
    response
    clientExtensionResults := m.clientExtensionResults }

def CredentialMessage.decodeRegistration (m : CredentialMessage) :
    Except DecodeError Registration :=
  m.decodeWith .create ResponseMessage.decodeAttestation

def CredentialMessage.decodeAssertion (m : CredentialMessage) : Except DecodeError Assertion :=
  m.decodeWith .get ResponseMessage.decodeAssertion

def CredentialMessage.decode (m : CredentialMessage) :
    Kind → Except DecodeError Credential
  | .create => m.decodeRegistration.map .registration
  | .get => m.decodeAssertion.map .assertion

def ResponseMessage.form : Record ResponseMessage where
  name := "WireAuthenticatorResponse"
  fields :=
    [.optional "clientDataJSON" .string fun v r => { r with clientDataJSON := v },
     .optional "attestationObject" .string fun v r => { r with attestationObject := v },
     .optional "transports" (.list .string) fun v r => { r with transports := v },
     .optional "authenticatorData" .string fun v r => { r with authenticatorData := v },
     .optional "signature" .string fun v r => { r with signature := v },
     .optional "userHandle" .string fun v r => { r with userHandle := v }]
  empty := {}
  undeclared := .dropped

def ResponseMessage.toValue (r : ResponseMessage) : Value :=
  .object (
    Value.optional "clientDataJSON" .string r.clientDataJSON
    ++ Value.optional "attestationObject" .string r.attestationObject
    ++ Value.optional "transports" (listValue .string) r.transports
    ++ Value.optional "authenticatorData" .string r.authenticatorData
    ++ Value.optional "signature" .string r.signature
    ++ Value.optional "userHandle" .string r.userHandle)

def CredentialMessage.form : Record CredentialMessage where
  name := "WireCredential"
  fields :=
    [.optional "id" .string fun v m => { m with id := v },
     .optional "rawId" .string fun v m => { m with rawId := v },
     .optional "type" .string fun v m => { m with type := v },
     .optional "authenticatorAttachment" (.choice AuthenticatorAttachment.choices)
      fun v m => { m with authenticatorAttachment := v },
     .mandatory "response" ResponseMessage.form.decoder fun v m => { m with response := v },
     .optional "clientExtensionResults" .any fun v m => { m with clientExtensionResults := v }]
  empty := {}
  undeclared := .dropped

def CredentialMessage.toValue (m : CredentialMessage) : Value :=
  .object (
    Value.optional "id" .string m.id
    ++ Value.optional "rawId" .string m.rawId
    ++ Value.optional "type" .string m.type
    ++ Value.optional "authenticatorAttachment" (fun v => .string v.name) m.authenticatorAttachment
    ++ ("response", m.response.toValue)
    :: Value.optional "clientExtensionResults" (fun v => v) m.clientExtensionResults)

def CredentialMessage.ofText (text : String) : Except DecodeError CredentialMessage :=
  (decodeText CredentialMessage.form.decoder text).mapError .json

end RemoteSigning.Ceremony
