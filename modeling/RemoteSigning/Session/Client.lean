import RemoteSigning.Session.Room
/-!
# A device in its room

A session with the socket that connects it to a relay. There is no second connection: when the
socket closes or fails, the session is over.
-/

namespace RemoteSigning.Session

open Ceremony

/-- What arrives on a socket. -/
inductive Message where
  | text (content : String)
  /-- Octets, or what only keeps the connection alive. -/
  | other
  | close
  | broken (reason : String)
deriving DecidableEq

/-- A socket. -/
structure Socket where
  /-- What arrives, in its order; then the socket closes. -/
  incoming : List Message := []
  /-- The texts that were sent, oldest first. -/
  outgoing : List String := []
  /-- Why nothing can be sent, if that is so. -/
  fault : Option String := none
deriving DecidableEq

def socketFailure (reason : String) : Failure := .transport (.socket reason)

def receive (s : Session) : Message → Except Failure (Option Effect) × Session
  | .text content =>
    let (result, s) := s.run (handleText content)
    (result.mapError .decode, s)
  | .other => (.ok none, s)
  | .close => (.ok (some .closed), s.onClose)
  | .broken reason => (.error (socketFailure reason), s.onTransportError)

/-- Handles what arrives until it has an effect. -/
def nextEffect (s : Session) : List Message → Except Failure Effect × Session × List Message
  | [] => (.ok .closed, s.onClose, [])
  | m :: rest =>
    match s.receive m with
    | (.ok none, s) => nextEffect s rest
    | (.ok (some e), s) => (.ok e, s, rest)
    | (.error f, s) => (.error f, s, rest)

/-- Handles what arrives until the session has reached a stage. All effects on the way are dropped
but those after which it cannot be reached. -/
def waitFor (stage : Stage) (s : Session) :
    List Message → Except Failure Unit × Session × List Message
  | [] => if s.stage = stage then (.ok (), s, []) else (.error (.transport .closed), s.onClose, [])
  | m :: rest =>
    if s.stage = stage then (.ok (), s, m :: rest)
    else
      match s.receive m with
      | (.ok (some .busy), s) =>
        (.error (.transport (.unavailable "relay room is busy")), s, rest)
      | (.ok (some .closed), s) => (.error (.transport .closed), s, rest)
      | (.ok (some .failed), s) => (.error (.transport .closed), s, rest)
      | (.ok _, s) => waitFor stage s rest
      | (.error f, s) => (.error f, s, rest)

/-- A session with its socket. -/
structure Client where
  session : Session
  socket : Socket
deriving DecidableEq

namespace Client

/-- Joins the room for a challenge. `dial` opens a socket or says why it cannot. -/
def connect (dial : Url → Except String Socket) (relay : Url) (challengeId : String) (kind : Kind) :
    Except Failure Client := do
  let room ← (roomUrl relay challengeId).mapError .transport
  let socket ← (dial room).mapError socketFailure
  return { session := (start challengeId kind).onOpen, socket }

def nextEffect (c : Client) : Except Failure Effect × Client :=
  let (result, session, incoming) := c.session.nextEffect c.socket.incoming
  (result, { session, socket := { c.socket with incoming } })

/-- Waits until the session has reached a stage. -/
def waitFor (c : Client) (stage : Stage) : Except Failure Unit × Client :=
  let (result, session, incoming) := c.session.waitFor stage c.socket.incoming
  (result, { session, socket := { c.socket with incoming } })

def send (c : Client) (text : String) : Except Failure Unit × Client :=
  match c.socket.fault with
  | some reason => (.error (socketFailure reason), c)
  | none => (.ok (), { c with socket := { c.socket with outgoing := c.socket.outgoing ++ [text] } })

/-- Takes the result of a ceremony. A credential that is not sent over the relay is handed back. -/
def complete (c : Client) (outcome : Except CeremonyError Credential) :
    Except Failure (Option Credential) × Client :=
  match c.session.run (routeCeremony outcome) with
  | (.error e, session) => (.error (.ceremony e), { c with session })
  | (.ok (.direct credential), session) => (.ok (some credential), { c with session })
  | (.ok (.relay m), session) =>
    let (sent, c) := { c with session }.send (Frame.credential m).toText
    (sent.map fun _ => none, c)

def close (c : Client) : Client := { c with session := c.session.onClose }

end Client

end RemoteSigning.Session
