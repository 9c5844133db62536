import RemoteSigning.Ceremony.Credential
import RemoteSigning.Time.Instant
/-!
# Challenges

A pending ceremony as the relying party serves it: the options, the application that asks, the data
to sign and when it expires.
-/

namespace RemoteSigning.Ceremony

open Json Time

/-- The options of either ceremony. -/
inductive Options where
  | create (o : CreationOptions Bytes)
  | get (o : RequestOptions Bytes)
deriving DecidableEq

/-- The ceremony that the options are for. -/
def Options.kind : Options → Kind
  | .create _ => .create
  | .get _ => .get

def Options.userVerification : Options → Option UserVerification
  | .create o => o.authenticatorSelection.bind (·.userVerification)
  | .get o => o.userVerification

/-- The application that asks. -/
structure App where
  name : String := ""
  description : String := ""
  icon : String := ""
  admin : Bool := false
  publicKey : String := ""
deriving DecidableEq, Repr

/-- A text for people and the octets that are signed with it, in native form or as base64 text. -/
structure SignData (β : Type) where
  text : String := ""
  data : Option β := none
deriving DecidableEq, Repr

/-- A challenge as text. -/
structure ChallengeMessage where
  type : String
  publicKey : Value
  app : App := {}
  signData : Option (SignData String) := none
  /-- Seconds from the start of 1970. -/
  expire : Option Int := none
deriving DecidableEq

/-- A challenge. -/
structure Challenge where
  id : String
  options : Options
  app : App
  signData : Option (SignData Bytes)
  expiresAt : Option Instant
deriving DecidableEq

def Challenge.kind (c : Challenge) : Kind := c.options.kind

/-- Whether the challenge has expired at an instant. One without an expiry never does. -/
def Challenge.isExpired (c : Challenge) (now : Instant) : Bool :=
  match c.expiresAt with
  | some t => t.le now
  | none => false

/-- The data in padded base64. -/
def SignData.encode (s : SignData Bytes) : SignData String :=
  { s with data := s.data.map Base64.encodeStandard }

/-- Reads the data, which has to be in canonical base64. -/
def SignData.decode (s : SignData String) : Except DecodeError (SignData Bytes) := do
  let data ← decodeOption
    (fun d => (Base64.decodeStandard d).mapError (.binary "signData.data")) s.data
  return { s with data }

def Options.toValue : Options → Value
  | .create o => o.encode.toValue.canonical
  | .get o => o.encode.toValue.canonical

def Options.ofValue (kind : Kind) (v : Value) : Except DecodeError Options :=
  match kind with
  | .create => do
    let o ← (decodeValue CreationOptions.form.decoder v).mapError .json
    return .create (← o.decode)
  | .get => do
    let o ← (decodeValue RequestOptions.form.decoder v).mapError .json
    return .get (← o.decode)

/-- Reads a challenge. An expiry outside the calendar is dropped. -/
def ChallengeMessage.decode (id : String) (m : ChallengeMessage) :
    Except DecodeError Challenge := do
  let kind ← Kind.ofName m.type
  let options ← Options.ofValue kind m.publicKey
  let signData ← decodeOption SignData.decode m.signData
  return { id, options, app := m.app, signData, expiresAt := m.expire.bind Instant.ofSeconds? }

def Challenge.encode (c : Challenge) : ChallengeMessage where
  type := c.kind.name
  publicKey := c.options.toValue
  app := c.app
  signData := c.signData.map (·.encode)
  expire := c.expiresAt.map (·.seconds)

def App.form : Record App where
  name := "App"
  fields :=
    [.defaulted "name" .string fun v a => { a with name := v },
     .defaulted "description" .string fun v a => { a with description := v },
     .defaulted "icon" .string fun v a => { a with icon := v },
     .defaulted "admin" .bool fun v a => { a with admin := v },
     .defaulted "publicKey" .string fun v a => { a with publicKey := v }]
  empty := {}
  undeclared := .dropped

def App.toValue (a : App) : Value :=
  .object [("name", .string a.name), ("description", .string a.description),
    ("icon", .string a.icon), ("admin", .bool a.admin), ("publicKey", .string a.publicKey)]

def SignData.form : Record (SignData String) where
  name := "WireSignData"
  fields :=
    [.defaulted "text" .string fun v s => { s with text := v },
     .optional "data" .string fun v s => { s with data := v }]
  empty := {}
  undeclared := .dropped

/-- The data to sign as a value, with binary members written by `binary`. -/
def SignData.toValue (binary : β → Value) (s : SignData β) : Value :=
  .object (("text", .string s.text) :: Value.optional "data" binary s.data)

def ChallengeMessage.form : Record ChallengeMessage where
  name := "WireChallenge"
  fields :=
    [.mandatory "type" .string fun v m => { m with type := v },
     .mandatory "publicKey" .any fun v m => { m with publicKey := v },
     .defaulted "app" App.form.decoder fun v m => { m with app := v },
     .optional "signData" SignData.form.decoder fun v m => { m with signData := v },
     .optional "expire" .i64 fun v m => { m with expire := v }]
  empty := { type := "", publicKey := .null }
  undeclared := .dropped

def ChallengeMessage.toValue (m : ChallengeMessage) : Value :=
  .object (("type", .string m.type) :: ("publicKey", m.publicKey) :: ("app", m.app.toValue)
    :: Value.optional "signData" (SignData.toValue .string) m.signData
    ++ Value.optional "expire" Value.integer m.expire)

end RemoteSigning.Ceremony
