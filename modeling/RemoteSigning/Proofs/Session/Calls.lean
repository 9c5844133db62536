import RemoteSigning.Proofs.Session.Methods

/-!
# Calls on a session

A device opens, closes and breaks its connection, hands over every text that arrives, and routes the
results of ceremonies, in any order. `Session.call` is one such call, `Session.after` the session
after a list of them. What a call can do to a session is said once, by `Step`.
-/

namespace RemoteSigning.Session

open Ceremony

/-- What a device does with its session. -/
inductive Call where
  | onOpen
  | onClose
  | onTransportError
  /-- A text has arrived. -/
  | handle (text : String)
  /-- A ceremony has ended. -/
  | route (outcome : Except CeremonyError Credential)

/-- What a call is answered with. -/
inductive Answer where
  | done
  | effect (e? : Option Effect)
  | refused (e : DecodeError)
  | routed (r : Route)
  | failed (e : CeremonyError)
deriving DecidableEq

/-- What comes of a call, and the session after it. -/
def call (s : Session) : Call → Answer × Session
  | .onOpen => (.done, s.onOpen)
  | .onClose => (.done, s.onClose)
  | .onTransportError => (.done, s.onTransportError)
  | .handle text =>
    match s.run (handleText text) with
    | (.ok e?, s) => (.effect e?, s)
    | (.error e, s) => (.refused e, s)
  | .route outcome =>
    match s.run (routeCeremony outcome) with
    | (.ok r, s) => (.routed r, s)
    | (.error e, s) => (.failed e, s)

/-- The session after some calls. -/
def after (s : Session) (calls : List Call) : Session := calls.foldl (fun s c => (s.call c).2) s

/-- What each of some calls is answered with. -/
def answers (s : Session) : List Call → List Answer
  | [] => []
  | c :: rest => (s.call c).1 :: answers (s.call c).2 rest

@[simp]
theorem after_nil (s : Session) : s.after [] = s := rfl

@[simp]
theorem after_cons (s : Session) (c : Call) (rest : List Call) :
    s.after (c :: rest) = (s.call c).2.after rest := rfl

@[simp]
theorem after_append (s : Session) (first rest : List Call) :
    s.after (first ++ rest) = (s.after first).after rest :=
  List.foldl_append

@[simp]
theorem answers_nil (s : Session) : s.answers [] = [] := rfl

@[simp]
theorem answers_cons (s : Session) (c : Call) (rest : List Call) :
    s.answers (c :: rest) = (s.call c).1 :: (s.call c).2.answers rest := rfl

@[simp]
theorem answers_append (s : Session) (first rest : List Call) :
    s.answers (first ++ rest) = s.answers first ++ (s.after first).answers rest := by
  induction first generalizing s with
  | nil => rfl
  | cons c first ih => simp only [List.cons_append, answers_cons, after_cons, ih]

/-- The frame of a text, if it is one. -/
def frame? (text : String) : Option Frame := (Frame.ofText text).toOption

/-- The event of a frame, if it is about the stage. -/
def Frame.stageEvent? : Frame → Option Event
  | .event .waiting => some .waiting
  | .event .ready => some .ready
  | _ => none

def textStageEvent? (text : String) : Option Event := frame? text >>= Frame.stageEvent?

def Call.text? : Call → Option String
  | .handle text => some text
  | _ => none

def Call.stageEvent? (c : Call) : Option Event := c.text? >>= textStageEvent?

/-- The events about the stage that some calls bring, in order. -/
def stageEvents (calls : List Call) : List Event := calls.filterMap Call.stageEvent?

@[simp]
theorem stageEvents_nil : stageEvents [] = [] := rfl

/-- Calls that hand over no text add no stage events. -/
theorem stageEvents_eq (calls : List Call) :
    stageEvents calls = (calls.filterMap Call.text?).filterMap textStageEvent? := by
  rw [List.filterMap_filterMap]
  rfl

@[simp]
theorem stageEvents_append (first rest : List Call) :
    stageEvents (first ++ rest) = stageEvents first ++ stageEvents rest :=
  List.filterMap_append

/-- Whether an answer says that the peer has joined. -/
def Answer.isPeerJoined : Answer → Bool
  | .effect (some .peerJoined) => true
  | _ => false

def Answer.isPeerLeft : Answer → Bool
  | .effect (some .peerLeft) => true
  | _ => false

/-- The credential that an answer hands over. -/
def Answer.received? : Answer → Option Credential
  | .effect (some (.credentialReceived c)) => some c
  | _ => none

/-- The credential that an answer sends to the peer. -/
def Answer.relayed? : Answer → Option CredentialMessage
  | .routed (.relay m) => some m
  | _ => none

/-- Whether an answer uses up the session: a credential is passed on or sent. -/
def Answer.isResponse (a : Answer) : Bool := a.received?.isSome || a.relayed?.isSome

@[simp]
theorem Answer.relayed?_effect (e? : Option Effect) : (Answer.effect e?).relayed? = none := rfl

@[simp]
theorem Answer.received?_routed (r : Route) : (Answer.routed r).received? = none := rfl

@[simp]
theorem Answer.received?_credentialReceived (c : Credential) :
    (Answer.effect (some (.credentialReceived c))).received? = some c := rfl

@[simp]
theorem Answer.relayed?_relay (m : CredentialMessage) :
    (Answer.routed (.relay m)).relayed? = some m := rfl

/-- Whether an answer neither announces nor reports anything of the other device, nor uses up the
session. -/
def Answer.isQuiet (a : Answer) : Bool := !a.isPeerJoined && !a.isPeerLeft && !a.isResponse

/-- All that one call can do. Whatever is not one of the first four leaves role and stage alone. -/
inductive Step (s : Session) (c : Call) : Answer → Session → Prop where
  | waiting (event : c.stageEvent? = some .waiting) :
      Step s c (.effect s.onWaiting.1) s.onWaiting.2
  | ready (event : c.stageEvent? = some .ready) :
      Step s c (.effect s.onReady.1) s.onReady.2
  | received (event : c.stageEvent? = none) (initiator : s.isInitiator)
      (unused : s.stage ≠ .responded) (credential : Credential) :
      Step s c (.effect (some (.credentialReceived credential))) { s with stage := .responded }
  | relayed (event : c.stageEvent? = none) (scanner : s.role = .scanner)
      (ready : s.stage = .ready) (m : CredentialMessage) :
      Step s c (.routed (.relay m)) { s with stage := .responded }
  | quiet (event : c.stageEvent? = none) (a : Answer) (isQuiet : a.isQuiet)
      (connection : Connection) : Step s c a { s with connection }

/-- What handling a frame can do, said of any call that hands it over. -/
theorem step_handleFrame {s s' : Session} {c : Call} {f : Frame} {e? : Option Effect}
    (hEvent : c.stageEvent? = f.stageEvent?) (h : s.run (handleFrame f) = (.ok e?, s')) :
    Step s c (.effect e?) s' := by
  cases f with
  | event e =>
      rw [run_handleFrame_event, Prod.mk.injEq, Except.ok.injEq] at h
      obtain ⟨rfl, rfl⟩ := h
      cases e with
      | waiting => exact .waiting hEvent
      | ready => exact .ready hEvent
      | connecting => exact .quiet hEvent _ rfl s.connection
      | closed => exact .quiet hEvent _ rfl .closed
      | error => exact .quiet hEvent _ rfl .failed
      | busy => exact .quiet hEvent _ rfl .closed
  | credential m =>
      rw [run_handleFrame_credential, run_handleCredential] at h
      split at h
      · rename_i hAccepts
        split at h
        · rename_i credential _
          cases h
          exact .received hEvent hAccepts.1 hAccepts.2 credential
        · cases h
      · cases h
        exact .quiet hEvent _ rfl s.connection
  | unknown v =>
      cases h
      exact .quiet hEvent _ rfl s.connection

/-- Routing what comes of a ceremony is a step of its call. -/
theorem step_routeCeremony {s s' : Session} {outcome : Except CeremonyError Credential} {r : Route}
    (h : s.run (routeCeremony outcome) = (.ok r, s')) :
    Step s (.route outcome) (.routed r) s' := by
  cases outcome with
  | error e => cases h
  | ok credential =>
      rw [run_routeCeremony_ok] at h
      split at h
      · rename_i hSends
        simp only [sendsOverRelay, Bool.and_eq_true, beq_iff_eq] at hSends
        cases h
        exact .relayed rfl hSends.1.1 hSends.1.2 credential.encode
      · cases h
        exact .quiet rfl _ rfl s.connection

/-- Only a credential is ever refused, and it is no stage event. -/
theorem stageEvent_of_handleText_error {s s' : Session} {text : String} {e : DecodeError}
    (h : s.run (handleText text) = (.error e, s')) : frame? text >>= Frame.stageEvent? = none := by
  rw [run_handleText] at h
  rw [frame?]
  split at h
  · rename_i f hFrame
    rw [hFrame]
    cases f with
    | event e => cases h
    | credential m => rfl
    | unknown v => rfl
  · rename_i hFrame
    rw [hFrame]
    rfl

/-- `Step` is all that a call can do. -/
theorem step_call (s : Session) (c : Call) : Step s c (s.call c).1 (s.call c).2 := by
  cases c with
  | onOpen => exact .quiet rfl _ rfl .opened
  | onClose => exact .quiet rfl _ rfl .closed
  | onTransportError => exact .quiet rfl _ rfl .failed
  | handle text =>
      have hEvent : (Call.handle text).stageEvent? = frame? text >>= Frame.stageEvent? := rfl
      rw [call]
      split
      · rename_i e? s' hHandled
        obtain ⟨f, hFrame, hHandled⟩ := handleText_eq_ok.mp hHandled
        rw [frame?, hFrame] at hEvent
        exact step_handleFrame hEvent hHandled
      · rename_i e s' hHandled
        obtain rfl := eq_of_handleText_error hHandled
        exact .quiet (hEvent.trans (stageEvent_of_handleText_error hHandled)) _ rfl s'.connection
  | route outcome =>
      rw [call]
      split
      · rename_i hRouted
        exact step_routeCeremony hRouted
      · rename_i hRouted
        obtain ⟨-, rfl⟩ := eq_of_routeCeremony_error hRouted
        exact .quiet rfl _ rfl _

end RemoteSigning.Session
