import RemoteSigning.Session.Basic
/-!
# The text interface of a session

A page holds a session by this handle: it passes in what arrives on its socket and gets JSON texts
back. A call that fails is answered by its error.
-/

namespace RemoteSigning.Session

open Json Ceremony

def Stage.name : Stage → String
  | .idle => "idle"
  | .waiting => "waiting"
  | .ready => "ready"
  | .responded => "responded"

def Role.name : Role → String
  | .undetermined => "undetermined"
  | .initiator _ => "initiator"
  | .scanner => "scanner"

/-- The members that describe an effect. -/
def effectMembers : Option Effect → List (String × Value)
  | none => [("effect", .null)]
  | some .peerJoined => [("effect", .string "peer_joined")]
  | some .peerLeft => [("effect", .string "peer_left")]
  | some (.credentialReceived c) =>
    [("effect", .string "credential"), ("credential", c.encode.toValue)]
  | some .busy => [("effect", .string "busy")]
  | some .closed => [("effect", .string "closed")]
  | some .failed => [("effect", .string "failed")]

/-- An answer: an object with sorted members. -/
def answer (members : List (String × Value)) : String := (Value.object members).canonical.compact

/-- The answer that reports an error. -/
def errorAnswer (message : String) : String := answer [("error", .string message)]

/-- The answer that reports a failure of the platform. -/
def ceremonyErrorAnswer (e : CeremonyError) : String :=
  answer [("error", .object [("name", .string e.name), ("message", .string e.message)])]

def create (challengeId kind : String) : Except DecodeError Session := do
  return start challengeId (← Kind.ofName kind)

def handleFrameText (s : Session) (text : String) : String × Session :=
  match s.run (handleText text) with
  | (.ok e, s) => (answer (effectMembers e), s)
  | (.error e, s) => (errorAnswer e.message, s)

def readCredential (s : Session) (text : String) : Except String Credential := do
  let m ← (decodeText CredentialMessage.form.decoder text).mapError (·.message)
  (m.decode s.kind).mapError (·.message)

/-- Routes a credential and answers with what has to be sent, or with the credential. -/
def routeCredentialText (s : Session) (text : String) : String × Session :=
  match s.readCredential text with
  | .error message => (errorAnswer message, s)
  | .ok c =>
    match s.run (routeCeremony (.ok c)) with
    | (.ok (.relay m), s) =>
      (answer [("route", .string "socket"), ("frame", .string (Frame.credential m).toText)], s)
    | (.ok (.direct c), s) =>
      (answer [("route", .string "direct"), ("credential", c.encode.toValue)], s)
    | (.error e, s) => (ceremonyErrorAnswer e, s)

/-- Reports that the ceremony failed, and answers with the failure. -/
def routeFailureText (s : Session) (e : CeremonyError) : String × Session :=
  match s.run (routeCeremony (.error e)) with
  | (.ok _, s) => (errorAnswer "unexpected route", s)
  | (.error e, s) => (ceremonyErrorAnswer e, s)

end RemoteSigning.Session
