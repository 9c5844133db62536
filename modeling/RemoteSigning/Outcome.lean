import RemoteSigning.Ceremony.Options
import RemoteSigning.Time.Instant
/-!
# Outcomes of a challenge

What the relying party says about a challenge each time it is asked. `Outcome.ofResponse` interprets
an HTTP answer. Only an answer of the class `2xx` can say anything but an error.
-/

namespace RemoteSigning

open Json Time

/-- The assertion that the relying party hands out once a challenge is signed. -/
structure SignedAssertion where
  challengeId : String := ""
  userId : String := ""
  signed : Option Instant := none
  userPresent : Bool := false
  userVerified : Bool := false
  payload : List (String × Value) := []
deriving DecidableEq

def instantDecoder : Decoder Instant := fun _ d =>
  match d with
  | .string (.ok s) => (Instant.ofRfc3339 s).mapError fun e => .badText e.message
  | d => .error (d.mismatch "an RFC 3339 formatted date and time string")

def SignedAssertion.form : Record SignedAssertion where
  name := "SignedAssertion"
  fields :=
    [.defaulted "challengeId" .string fun v a => { a with challengeId := v },
     .defaulted "userId" .string fun v a => { a with userId := v },
     .optional "signed" instantDecoder fun v a => { a with signed := v },
     .defaulted "userPresent" .bool fun v a => { a with userPresent := v },
     .defaulted "userVerified" .bool fun v a => { a with userVerified := v }]
  empty := {}
  undeclared := .kept fun name v a => { a with payload := Value.insertMember name v a.payload }

/-- The assertion as a value; a missing instant is written as `null`. -/
def SignedAssertion.toValue (a : SignedAssertion) : Value :=
  .object ([("challengeId", .string a.challengeId), ("userId", .string a.userId),
    ("signed", (a.signed.map fun t => Value.string t.toRfc3339).getD .null),
    ("userPresent", .bool a.userPresent), ("userVerified", .bool a.userVerified)] ++ a.payload)

/-- What is known of a challenge. -/
inductive Outcome where
  | pending
  | viewed
  | signed (a : SignedAssertion)
  | rejected
  | error (code message : String)
deriving DecidableEq

namespace Outcome

/-- The code of the error when the answer cannot be obtained or read. -/
def transportCode : String := "transport_error"

/-- The code of the error when time runs out. -/
def timeoutCode : String := "timeout"

/-- Whether no other outcome can follow. -/
def isTerminal : Outcome → Bool
  | .pending | .viewed => false
  | _ => true

def status : Outcome → String
  | .pending => "pending"
  | .viewed => "viewed"
  | .signed _ => "signed"
  | .rejected => "rejected"
  | .error code _ => code

/-- The outcome when time runs out. -/
def timedOut : Outcome := .error timeoutCode "challenge was not completed in time"

/-- Whether an HTTP status says that the request succeeded. -/
def isSuccess (httpStatus : Nat) : Bool := 200 ≤ httpStatus && httpStatus < 300

def ofSigned (body : Value) : Outcome :=
  match decodeValue SignedAssertion.form.decoder body with
  | .ok a => .signed a
  | .error e => .error transportCode ("malformed signed response: " ++ e.message)

/-- Interprets a body. An error body names its code in `status` or in `error`. -/
def ofBody (httpStatus : Nat) (body : Value) : Outcome :=
  let status := (body.member? "status").bind Value.string?
  let message := ((body.member? "msg").bind Value.string?).getD ""
  if isSuccess httpStatus then
    match status with
    | some "pending" => .pending
    | some "viewed" => .viewed
    | some "rejected" => .rejected
    | some "signed" => ofSigned body
    | some other => .error other message
    | none => .error "invalid_status" "collect response carried no status"
  else
    let code := status <|> (body.member? "error").bind Value.string?
    .error (code.getD ("http_" ++ toString httpStatus)) message

def ofResponse (httpStatus : Nat) (body : List UInt8) : Outcome :=
  match parseSource (Text.positions body) with
  | .ok v => ofBody httpStatus v
  | .error f =>
    .error transportCode
      ("unreadable collect response (" ++ toString httpStatus ++ "): " ++ f.message)

end Outcome

end RemoteSigning
