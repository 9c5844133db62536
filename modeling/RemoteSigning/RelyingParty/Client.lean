import RemoteSigning.Collection.Basic
import RemoteSigning.Network.Http
import RemoteSigning.RelyingParty.Config
import RemoteSigning.RelyingParty.Request
/-!
# The client of a relying party

Each call sends a request and interprets the answer. What changes something at the relying party is
sent once. What only reads is sent again after a failure that may pass, with growing pauses that are
chosen by chance, until the time for it is used up.
-/

namespace RemoteSigning.RelyingParty

open Json Ceremony Network

/-- A client. -/
structure Client where
  config : Config
  network : Network
  chance : Nat → Nat

/-- What a client has done so far. -/
structure Log where
  /-- The requests for which a connection was tried, oldest first. -/
  sent : List Network.Request := []
  now : Nat := 0
deriving DecidableEq

/-- How sending a request once ends. -/
inductive Attempt where
  | answered (r : Network.Response)
  /-- A failure that may pass. -/
  | transient (e : TransportFailure)
  | permanent (e : TransportFailure)
deriving DecidableEq

/-- The statuses of a failure that may pass, with their names. -/
def transientStatuses : List (Nat × String) :=
  [(429, "Too Many Requests"), (502, "Bad Gateway"), (503, "Service Unavailable"),
    (504, "Gateway Timeout")]

def notSent (u : Url) (causes : List String) : TransportFailure :=
  .http ("error sending request for url (" ++ u.text ++ ")") causes

/-- The failure of a request for a URL of another scheme. -/
def badScheme (u : Url) : TransportFailure :=
  .http ("builder error for url (" ++ u.text ++ ")") ["URL scheme is not allowed"]

/-- The failure that a status stands for if it may pass. -/
def transientFailure? (status : Nat) : Option TransportFailure :=
  (transientStatuses.lookup status).map fun name =>
    .unavailable ("relying party returned " ++ toString status ++ " " ++ name)

/-- The failure of a request whose answer has a status, but no body that can be read. -/
def unread (causes : List String) : TransportFailure := .http "error decoding response body" causes

/-- Why a body that takes too long is not read. -/
def lateBody : List String := ["request or response body error", "operation timed out"]

/-- How an attempt ends that has got a status, and how long it takes. The body, of which `read` comes,
is waited for only if the status is not one of a failure that may pass. -/
def Attempt.ofStatus (timeout : Nat) (a : Arrival) (status : Nat) (read : Attempt) :
    Attempt × Nat :=
  match transientFailure? status with
  | some e => (.transient e, a.delay)
  | none =>
    if timeout ≤ a.delay + a.bodyDelay then (.permanent (unread lateBody), timeout)
    else (read, a.delay + a.bodyDelay)

/-- How an attempt ends, and how long it takes. Without a status it is a failure that may pass, also
when there was a connection. -/
def Attempt.ofArrival (timeout : Nat) (u : Url) (a : Arrival) : Attempt × Nat :=
  if timeout ≤ a.delay then (.transient (notSent u ["operation timed out"]), timeout)
  else
    match a.reply with
    | .unreachable causes | .broken causes => (.transient (notSent u causes), a.delay)
    | .answered r => ofStatus timeout a r.status (.answered r)
    | .cutOff status causes => ofStatus timeout a status (.permanent (unread causes))

namespace Client

/-- Sends a request once. -/
def attempt (c : Client) (r : Network.Request) (log : Log) : Attempt × Log :=
  if !isSendable r.url.scheme then (.permanent (badScheme r.url), log)
  else
    let (ended, time) := Attempt.ofArrival c.config.timeout r.url (c.network log.sent r)
    (ended, { sent := log.sent ++ [r], now := log.now + time })

/-- A pause: between half of an interval and half as much again, and never none. -/
def pause (interval chance : Nat) : Nat := max 1 (interval - interval / 2 + chance % (interval + 1))

/-- The interval after another one. -/
def growth (longest interval : Nat) : Nat := min longest (interval * 3 / 2)

/-- Sends a request until it ends otherwise than with a failure that may pass, or until the next
pause would go beyond `limit`. -/
def insist (c : Client) (r : Network.Request) (limit interval pauses : Nat) (log : Log) :
    Except TransportFailure Network.Response × Log :=
  match c.attempt r log with
  | (.answered response, log) => (.ok response, log)
  | (.permanent e, log) => (.error e, log)
  | (.transient e, after) =>
    let resumed := after.now + pause interval (c.chance pauses)
    if log.now < resumed ∧ resumed ≤ limit then
      insist c r limit (growth c.config.longestPause interval) (pauses + 1)
        { after with now := resumed }
    else (.error e, after)
termination_by limit - log.now
decreasing_by omega

/-- Sends a request, again if that is allowed and configured. -/
def execute (c : Client) (again : Bool) (r : Network.Request) (log : Log) :
    Except TransportFailure Network.Response × Log :=
  if again ∧ c.config.maxRetries ≠ 0 then
    c.insist r (log.now + c.config.patience) c.config.initialPause 0 log
  else
    match c.attempt r log with
    | (.answered response, log) => (.ok response, log)
    | (.transient e, log) => (.error e, log)
    | (.permanent e, log) => (.error e, log)

/-- Sends a request if there is one, and interprets the answer. -/
def call {ε α : Type} (c : Client) (again : Bool) (lift : TransportFailure → ε)
    (request : Except ε Network.Request) (interpret : Network.Response → Except ε α) (log : Log) :
    Except ε α × Log :=
  match request with
  | .error e => (.error e, log)
  | .ok r =>
    match c.execute again r log with
    | (.ok response, log) => (interpret response, log)
    | (.error e, log) => (.error (lift e), log)

end Client

/-- What a relying party says about a failure. -/
structure Refusal where
  code : String := ""
  reason : String := ""
  detail : Option String := none

def Refusal.form : Record Refusal where
  name := "ApiErrorBody"
  fields :=
    [.defaulted "error" .string fun v r => { r with code := v },
     .defaulted "msg" .string fun v r => { r with reason := v },
     .optional "technicalMsg" .string fun v r => { r with detail := v }]
  empty := {}
  undeclared := .dropped

/-- Reads an answer that has to succeed. -/
def expect (decoder : Decoder α) (r : Network.Response) : Except Failure α :=
  let source := Text.positions r.body
  if Outcome.isSuccess r.status then
    (decodeSource decoder source).mapError fun e =>
      .transport (.badAnswer ("unreadable relying party response: " ++ e.message))
  else
    let refusal := (decodeSource Refusal.form.decoder source).toOption.getD {}
    .error (.refused r.status refusal.code refusal.reason)

/-- Reads where the signing device goes. -/
def Redirect.form : Record String where
  name := "RedirectBody"
  fields := [.defaulted "redirect" .string fun v _ => v]
  empty := ""
  undeclared := .dropped

/-- Reads where the signing device goes out of an answer. -/
def Redirect.ofResponse (r : Network.Response) : Except Failure Redirect := do
  (Redirect.ofLocation (← expect Redirect.form.decoder r)).mapError .transport

namespace Client

/-- The URL under which a relying party serves a path. -/
def endpoint (c : Client) (path : String) : Except Failure Url :=
  (c.config.baseUrl.resolve path).mapError fun e =>
    .badConfig ("bad endpoint " ++ path ++ ": " ++ e.message)

def challengePath (challengeId : String) : String := "api/v1/challenge/" ++ challengeId

/-- Adds the credentials of the client to a request, if it has a name. -/
def authorized (c : Client) (r : Network.Request) : Network.Request :=
  match c.config.clientId with
  | some user => r.authorize user (c.config.clientSecret.elim "" ClientSecret.text)
  | none => r

/-- Asks for a new challenge. Nothing is sent if the request is not valid. -/
def issue (c : Client) (r : SignRequest) : Log → Except Failure IssuedChallenge × Log :=
  c.call false .transport
    (do
      r.validate
      let u ← c.endpoint "api/v1/sign"
      return c.authorized (.make "POST" u (some r.toValue.compact)))
    (expect IssuedChallenge.form.decoder)

def fetch (c : Client) (challengeId : String) : Log → Except Failure Challenge × Log :=
  c.call true .transport
    (return .make "GET" (← c.endpoint (challengePath challengeId)) none)
    fun r => do
      ((← expect ChallengeMessage.form.decoder r).decode challengeId).mapError .decode

def submit (c : Client) (challengeId : String) (m : CredentialMessage) :
    Log → Except Failure Redirect × Log :=
  c.call false .transport
    (return .make "POST" (← c.endpoint (challengePath challengeId)) (some m.toValue.compact))
    Redirect.ofResponse

def reject (c : Client) (challengeId : String) : Log → Except Failure Redirect × Log :=
  c.call false .transport
    (return .make "DELETE" (← c.endpoint (challengePath challengeId)) none)
    Redirect.ofResponse

def collectPath : String := "api/v1/collect"

def pollBody (challengeId : String) : Value := .object [("challengeId", .string challengeId)]

def poll (c : Client) (challengeId : String) : Log → Except TransportFailure Outcome × Log :=
  c.call true id
    (do
      let u ← (c.config.baseUrl.resolve collectPath).mapError fun e =>
        TransportFailure.badAnswer e.message
      return c.authorized (.make "POST" u (some (pollBody challengeId).compact)))
    fun r => .ok (Outcome.ofResponse r.status r.body)

/-- What the client has done after asking for the outcome `n` times. -/
def logAfter (c : Client) (challengeId : String) (log : Log) : Nat → Log
  | 0 => log
  | n + 1 => (c.poll challengeId (logAfter c challengeId log n)).2

def source (c : Client) (log : Log) : Source := fun challengeId n =>
  let before := c.logAfter challengeId log n
  let (result, after) := c.poll challengeId before
  { result, delay := after.now - before.now }

end Client

end RemoteSigning.RelyingParty
