import RemoteSigning.Session.Frame
/-!
# The session of a device

Two devices meet in a relay room. The one that shows the code arrives first and hears `waiting`; the
one that scans it arrives second, and both hear `ready`. What a device hears first fixes its role.
The *initiator* announces its peer once and accepts one relayed credential; the *scanner* runs the
ceremony and sends the credential over the relay.

The session is a state machine without any transport.
-/

namespace RemoteSigning

namespace Session

open Ceremony

/-- The state of the connection to the relay. -/
inductive Connection where
  | connecting
  | opened
  | closed
  | failed
deriving DecidableEq, Repr

/-- How far the two devices are. -/
inductive Stage where
  | idle
  | waiting
  | ready
  /-- A credential has been accepted or sent, and nothing more is relayed. -/
  | responded
deriving DecidableEq, Repr

/-- The role of a device. -/
inductive Role where
  | undetermined
  | initiator (peerAnnounced : Bool)
  | scanner
deriving DecidableEq, Repr

/-- A failure that the platform reports, as cancelling does. It is passed on as it is. -/
structure CeremonyError where
  name : String
  message : String
deriving DecidableEq, Repr

def CeremonyError.text (e : CeremonyError) : String := e.name ++ ": " ++ e.message

/-- The error that platforms report when the user declines. -/
def CeremonyError.notAllowed (message : String) : CeremonyError := ⟨"NotAllowedError", message⟩

/-- What a frame calls for. -/
inductive Effect where
  | peerJoined
  | peerLeft
  | credentialReceived (c : Credential)
  | busy
  | closed
  | failed
deriving DecidableEq

/-- Where the result of a ceremony goes. -/
inductive Route where
  | relay (m : CredentialMessage)
  | direct (c : Credential)
deriving DecidableEq

end Session

/-- The session of one device. -/
structure Session where
  challengeId : String
  /-- The ceremony that is expected. -/
  kind : Ceremony.Kind
  connection : Session.Connection := .connecting
  stage : Session.Stage := .idle
  role : Session.Role := .undetermined
deriving DecidableEq

namespace Session

open Ceremony

def start (challengeId : String) (kind : Kind) : Session := { challengeId, kind }

/-- Whether the device shows the code. -/
def isInitiator (s : Session) : Bool :=
  match s.role with
  | .initiator _ => true
  | _ => false

def onOpen (s : Session) : Session := { s with connection := .opened }

def onClose (s : Session) : Session := { s with connection := .closed }

def onTransportError (s : Session) : Session := { s with connection := .failed }

/-- The other device is not there. Whoever hears this first is the initiator. -/
def onWaiting (s : Session) : Option Effect × Session :=
  let role := if s.role = .undetermined then .initiator false else s.role
  match s.stage with
  | .responded => (none, { s with role })
  | .ready => (some .peerLeft, { s with role, stage := .waiting })
  | _ => (none, { s with role, stage := .waiting })

/-- Both devices are there. Whoever hears this first is the scanner; the initiator announces its
peer the first time. -/
def onReady (s : Session) : Option Effect × Session :=
  if s.stage = .responded then (none, s)
  else
    match s.role with
    | .undetermined => (none, { s with stage := .ready, role := .scanner })
    | .initiator false => (some .peerJoined, { s with stage := .ready, role := .initiator true })
    | _ => (none, { s with stage := .ready })

def handleEvent (s : Session) : Event → Option Effect × Session
  | .connecting => (none, s)
  | .waiting => s.onWaiting
  | .ready => s.onReady
  | .busy => (some .busy, s.onClose)
  | .closed => (some .closed, s.onClose)
  | .error => (some .failed, s.onTransportError)

/-- A method of a session. It reads and changes the session, and whatever it has changed stays so
when it fails. -/
abbrev Method (ε α : Type) := ExceptT ε (StateM Session) α

/-- Calls a method: what it returns or why it fails, and the session that it leaves. -/
def run {ε α : Type} (s : Session) (method : Method ε α) : Except ε α × Session :=
  StateT.run (ExceptT.run method) s

/-- Handles a relayed credential. Only an initiator that has not responded reads it. -/
def handleCredential (m : CredentialMessage) : Method DecodeError (Option Effect) := do
  if !(← get).isInitiator then return none
  if (← get).stage = .responded then return none
  let c ← MonadExcept.ofExcept (m.decode (← get).kind)
  modify fun s => { s with stage := .responded }
  return some (.credentialReceived c)

def handleFrame : Frame → Method DecodeError (Option Effect)
  | .event e => modifyGet (·.handleEvent e)
  | .credential m => handleCredential m
  | .unknown _ => return none

def handleText (text : String) : Method DecodeError (Option Effect) := do
  handleFrame (← MonadExcept.ofExcept (Frame.ofText text))

/-- Whether a credential is sent over the relay. -/
def sendsOverRelay (s : Session) : Bool :=
  s.role == .scanner && s.stage == .ready && s.connection == .opened

/-- Decides where the result of a ceremony goes. A failure is passed on. -/
def routeCeremony (outcome : Except CeremonyError Credential) : Method CeremonyError Route := do
  let c ← MonadExcept.ofExcept outcome
  if (← get).sendsOverRelay then
    modify fun s => { s with stage := .responded }
    return .relay c.encode
  return .direct c

end Session

end RemoteSigning
