import RemoteSigning.Ceremony.Credential
/-!
# Frames

What travels through a relay: events, by which the relay tells a device where the other one is,
credentials, and anything else that is JSON. A credential is recognised by its member `response`, an
event by its member `event`.
-/

namespace RemoteSigning.Session

open Json Ceremony

/-- A signal of the relay. -/
inductive Event where
  | connecting
  | waiting
  | ready
  | closed
  | error
  | busy
deriving DecidableEq, Repr

def Event.name : Event → String
  | .connecting => "connecting"
  | .waiting => "waiting"
  | .ready => "ready"
  | .closed => "closed"
  | .error => "error"
  | .busy => "busy"

/-- The choices in the order in which messages list them. -/
def Event.choices : List (String × Event) :=
  [.connecting, .waiting, .ready, .closed, .error, .busy].map fun e => (e.name, e)

def Event.decoder : Decoder Event := .choice choices

/-- A text message on the relay. -/
inductive Frame where
  | event (e : Event)
  | credential (m : CredentialMessage)
  | unknown (v : Value)
deriving DecidableEq

/-- Reads an object that holds an event. -/
def Event.form : Record Event where
  name := "EventFrame"
  fields := [.mandatory "event" Event.decoder fun v _ => v]
  empty := .connecting
  undeclared := .dropped

/-- The frame that a value stands for. -/
def Frame.ofValue (v : Value) : Except DecodeError Frame :=
  if (v.member? "response").isSome then
    ((decodeValue CredentialMessage.form.decoder v).mapError .json).map .credential
  else
    match v.member? "event", decodeValue Event.form.decoder v with
    | some _, .ok e => .ok (.event e)
    | _, _ => .ok (.unknown v)

def Frame.ofText (text : String) : Except DecodeError Frame := do
  let v ← (parse text).mapError fun f => .json (.fault f)
  Frame.ofValue v

def Frame.toValue : Frame → Value
  | .event e => .object [("event", .string e.name)]
  | .credential m => m.toValue
  | .unknown v => v

def Frame.toText (f : Frame) : String := f.toValue.canonical.compact

def Event.text (e : Event) : String := (Frame.event e).toText

end RemoteSigning.Session
