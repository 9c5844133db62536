import RemoteSigning.Base64
import RemoteSigning.Json.Error
/-!
# Ceremonies and what can go wrong in decoding them

A challenge drives one of two ceremonies: a new credential is registered, or an existing one asserts
that the user consents.
-/

namespace RemoteSigning.Ceremony

/-- The octets of a binary member. -/
abbrev Bytes := List UInt8

/-- A ceremony. -/
inductive Kind where
  | create
  | get
deriving DecidableEq, Repr

def Kind.name : Kind → String
  | .create => "webauthn.create"
  | .get => "webauthn.get"

/-- Why a message is not decoded. -/
inductive DecodeError where
  /-- A binary member is not base64. -/
  | binary (field : String) (fault : Base64.Fault)
  | json (error : Json.Error)
  | foreignMember (field : String) (kind : Kind)
  /-- No ceremony has this name. -/
  | unknownKind (name : String)
deriving DecidableEq, Repr

def DecodeError.message : DecodeError → String
  | .binary field fault =>
    "field " ++ Json.ticked field ++ " is not valid base64: " ++ fault.message
  | .json error => "malformed JSON: " ++ error.message
  | .foreignMember field kind =>
    "field " ++ Json.ticked field ++ " is not allowed in a " ++ kind.name ++ " credential"
  | .unknownKind name => "unknown challenge type " ++ Json.ticked name

def Kind.ofName (name : String) : Except DecodeError Kind :=
  if name = Kind.create.name then .ok .create
  else if name = Kind.get.name then .ok .get
  else .error (.unknownKind name)

/-- Reads a binary member; `field` is its place in the message. -/
def decodeBinary (field : String) (text : String) : Except DecodeError Bytes :=
  (Base64.decodeUrlLenient text).mapError (.binary field)

/-- Reads a binary member that may be absent. -/
def decodeBinary? (field : String) : Option String → Except DecodeError (Option Bytes)
  | some text => (decodeBinary field text).map some
  | none => .ok none

end RemoteSigning.Ceremony
