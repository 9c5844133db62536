import RemoteSigning.Ceremony.Challenge
import RemoteSigning.Failure
import RemoteSigning.Url.Parse
/-!
# Requests to a relying party and its answers

A request for a new challenge, the challenge that is issued for it, and where the signing device
goes when it is done.
-/

namespace RemoteSigning.RelyingParty

open Json Ceremony

/-- A request for a new challenge. -/
structure SignRequest where
  userId : Option String := none
  /-- The text that is shown to the user. -/
  text : Option String := none
  /-- The octets that are signed along with it. -/
  data : Option Bytes := none
  userVerification : Option UserVerification := none
  timeout : Option Nat := none
  /-- Where the signing device is sent afterwards. -/
  redirect : Option String := none
deriving DecidableEq

def SignRequest.forUser (userId : String) : SignRequest := { userId := some userId }

def SignRequest.withSignData (r : SignRequest) (s : SignData Bytes) : SignRequest :=
  { r with text := some s.text, data := s.data }

/-- Refuses data without a text that the user can read. -/
def SignRequest.validate (r : SignRequest) : Except Failure Unit :=
  if r.data.isSome ∧ r.text.getD "" = "" then
    .error (.badRequest "sign data requires a human-readable text")
  else .ok ()

def SignRequest.toValue (r : SignRequest) : Value :=
  .object (
    Value.optional "userId" .string r.userId
    ++ Value.optional "text" .string r.text
    ++ Value.optional "data" (fun d => .string (Base64.encodeStandard d)) r.data
    ++ Value.optional "userVerification" (fun v => .string v.name) r.userVerification
    ++ Value.optional "timeout" natValue r.timeout
    ++ Value.optional "redirect" .string r.redirect)

/-- A challenge that the relying party has issued. -/
structure IssuedChallenge where
  challengeId : String
  secret : ChallengeSecret
deriving DecidableEq

def IssuedChallenge.redacted (c : IssuedChallenge) : String :=
  "IssuedChallenge \x7b challenge_id: " ++ Text.Quoted.encode c.challengeId ++ ", secret: "
    ++ c.secret.redacted ++ " \x7d"

/-- The secret, which goes by two names. -/
def secretField : Record.Field IssuedChallenge :=
  { Record.Field.mandatory "secret" ChallengeSecret.decoder (fun v c => { c with secret := v }) with
    aliases := ["qr_secret"] }

def IssuedChallenge.form : Record IssuedChallenge where
  name := "IssuedChallenge"
  fields :=
    [.mandatory "challenge_id" .string fun v c => { c with challengeId := v },
     secretField]
  empty := { challengeId := "", secret := ⟨""⟩ }
  undeclared := .dropped

/-- Where the signing device goes when it is done. -/
inductive Redirect where
  | close
  | navigate (u : Url)
deriving DecidableEq, Repr

def Redirect.ofLocation (location : String) : Except TransportFailure Redirect :=
  if location = "" then .ok .close
  else
    match Url.parse location with
    | .ok u => .ok (.navigate u)
    | .error e =>
      .error (.badAnswer ("bad redirect " ++ Text.Quoted.encode location ++ ": " ++ e.message))

end RemoteSigning.RelyingParty
