import RemoteSigning.Proofs.Relay.Hubs
import RemoteSigning.Proofs.Session.Frames
import RemoteSigning.Proofs.Session.Runs

/-!
# Devices at a relay

A hub together with the devices that joined it. Each device has a session, which handles the texts of
the device's queue one by one, the oldest first, while the device may call it in other ways at any
time. What the devices and the hub do is a list of actions in any order; an action that is not
possible when its turn comes changes nothing. Leaving is two actions, so that others can come in
between.
-/

namespace RemoteSigning.Relay

open Ceremony Session

structure Device where
  room : String
  /-- How many peers were in the room when the device joined. -/
  found : Nat
  challengeId : String
  kind : Kind
  calls : List Call := []

namespace Device

/-- The session of a device after all its calls. -/
def session (d : Device) : Session := (start d.challengeId d.kind).after d.calls

/-- What its calls were answered with. -/
def answers (d : Device) : List Answer := (start d.challengeId d.kind).answers d.calls

/-- The texts that it has handled, oldest first. -/
def handled (d : Device) : List String := d.calls.filterMap Call.text?

/-- The credentials that it has been handed. -/
def received (d : Device) : List Credential := d.answers.filterMap Answer.received?

/-- The credentials that it has sent to the other device. -/
def relayed (d : Device) : List CredentialMessage := d.answers.filterMap Answer.relayed?

/-- All texts that have come into the queue of the device, handled or still waiting. -/
def traffic (d : Device) (q : Queue) : List String := d.handled ++ q.texts

/-- The device after one more call. -/
def made (d : Device) (c : Call) : Device := { d with calls := d.calls ++ [c] }

/-- Whether a device is another one after more calls on its session. -/
def Continues (d' d : Device) : Prop := ∃ more, d' = { d with calls := d.calls ++ more }

theorem continues_refl (d : Device) : d.Continues d := ⟨[], by rw [List.append_nil]⟩

theorem made_continues (d : Device) (c : Call) : (d.made c).Continues d := ⟨[c], rfl⟩

theorem Continues.trans {d d' d'' : Device} (h : d''.Continues d') (h' : d'.Continues d) :
    d''.Continues d := by
  obtain ⟨later, rfl⟩ := h
  obtain ⟨more, rfl⟩ := h'
  exact ⟨more ++ later, by rw [List.append_assoc]⟩

/-- What a device found when it joined does not change. -/
theorem Continues.found_eq {d d' : Device} (h : d'.Continues d) : d'.found = d.found := by
  obtain ⟨more, rfl⟩ := h
  rfl

theorem Continues.room_eq {d d' : Device} (h : d'.Continues d) : d'.room = d.room := by
  obtain ⟨more, rfl⟩ := h
  rfl

@[simp]
theorem session_made (d : Device) (c : Call) : (d.made c).session = (d.session.call c).2 :=
  after_append ..

@[simp]
theorem answers_made (d : Device) (c : Call) :
    (d.made c).answers = d.answers ++ [(d.session.call c).1] :=
  answers_append ..

@[simp]
theorem handled_made (d : Device) (c : Call) : (d.made c).handled = d.handled ++ c.text?.toList := by
  cases c <;> simp [handled, made, Call.text?]

@[simp]
theorem received_made (d : Device) (c : Call) :
    (d.made c).received = d.received ++ (d.session.call c).1.received?.toList := by
  cases h : (d.session.call c).1.received? <;> simp [received, h]

@[simp]
theorem relayed_made (d : Device) (c : Call) :
    (d.made c).relayed = d.relayed ++ (d.session.call c).1.relayed?.toList := by
  cases h : (d.session.call c).1.relayed? <;> simp [relayed, h]

/-- What was relayed stays relayed. -/
theorem Continues.relayed_prefix {d d' : Device} (h : d'.Continues d) : d.relayed <+: d'.relayed := by
  obtain ⟨more, rfl⟩ := h
  exact ⟨(d.session.answers more).filterMap Answer.relayed?, by
    simp [relayed, answers, session, List.filterMap_append]⟩

/-- All that a device does is recorded from its start on. -/
theorem recorded (d : Device) : Recorded (stageEvents d.calls) d.answers d.session :=
  recorded_after d.challengeId d.kind d.calls

/-- A device relays a credential once at most. -/
theorem length_relayed_le (d : Device) : d.relayed.length ≤ 1 := by
  refine Nat.le_trans ?_ d.recorded.countP_isResponse_le
  rw [relayed, List.length_filterMap_eq_countP]
  exact List.countP_mono_left fun a _ hSome => by simp [Answer.isResponse, hSome]

/-- A session that has sent a message over the relay has sent no other. -/
theorem relayed_eq_of_mem {d : Device} {m : CredentialMessage} (h : m ∈ d.relayed) :
    d.relayed = [m] := by
  obtain ⟨n, hOne⟩ := List.length_eq_one_iff.mp
    (Nat.le_antisymm d.length_relayed_le (List.length_pos_of_mem h))
  rw [hOne] at h ⊢
  rw [List.mem_singleton.mp h]

/-- So a device that has relayed one will relay no other. -/
theorem Continues.relayed_eq {d d' : Device} (h : d'.Continues d) (hSent : d.relayed ≠ []) :
    d'.relayed = d.relayed := by
  have hOne : d'.relayed.length ≤ d.relayed.length :=
    Nat.le_trans d'.length_relayed_le (List.length_pos_iff.mpr hSent)
  exact (h.relayed_prefix.eq_of_length_le hOne).symm

/-- A device is handed a credential once at most. -/
theorem length_received_le (d : Device) : d.received.length ≤ 1 := by
  refine Nat.le_trans ?_ d.recorded.countP_isResponse_le
  rw [received, List.length_filterMap_eq_countP]
  exact List.countP_mono_left fun a _ hSome => by simp [Answer.isResponse, hSome]

/-- Without a text from the relay, the role of a device is open. -/
theorem role_of_handled_nil {d : Device} (h : d.handled = []) :
    d.session.role = .undetermined := by
  rw [handled] at h
  rw [undetermined_iff, d.recorded.role, stageEvents_eq, h]
  rfl

/-- The first text that a device has handled settles the role of its session, if it is a stage
event. -/
theorem origin_of_handled_cons {d : Device} {text : String} {rest : List String} {e : Event}
    (h : d.handled = text :: rest) (hEvent : textStageEvent? text = some e) :
    d.session.role.origin = some e := by
  rw [handled] at h
  rw [d.recorded.role, stageEvents_eq, h, List.filterMap_cons_some hEvent, List.head?_cons]

end Device

/-- A hub and the devices that have ever joined it. -/
structure World where
  hub : Hub := {}
  devices : PeerId → Option Device := fun _ => none

/-- What happens at a relay. -/
inductive Action where
  /-- A device joins, under a name that no device has had. -/
  | join (room : String) (peer : PeerId) (challengeId : String) (kind : Kind)
  /-- The first half of leaving: a peer is taken out of its room. -/
  | leave (room : String) (peer : PeerId)
  /-- The second half of leaving: a room is given up if it is empty. -/
  | tidy (room : String)
  /-- A peer sends a text to the other peer in its room. -/
  | forward (room : String) (sender : PeerId) (text : String)
  /-- A device stops reading its queue. -/
  | abandon (peer : PeerId)
  /-- A device reads the oldest text in its queue and hands it to its session. -/
  | deliver (peer : PeerId)
  /-- A device calls its session of its own accord. -/
  | call (peer : PeerId) (c : Call)

namespace World

def setDevice (w : World) (peer : PeerId) (d : Device) : World :=
  { w with devices := fun p => if p = peer then some d else w.devices p }

/-- One action. -/
def step (w : World) : Action → World
  | .join room peer challengeId kind =>
    if (w.devices peer).isSome then w
    else
      match w.hub.join? room peer with
      | some hub =>
        { w with hub }.setDevice peer
          { room, found := (w.hub.peers room).length, challengeId, kind }
      | none => w
  | .leave room peer =>
    if peer ∈ w.hub.peers room then { w with hub := (w.hub.beginLeave room peer).2 } else w
  | .tidy room => { w with hub := w.hub.endLeave room }
  | .forward room sender text =>
    if sender ∈ w.hub.peers room then { w with hub := w.hub.forward room sender text } else w
  | .abandon peer => { w with hub := w.hub.abandon peer }
  | .deliver peer =>
    if (w.hub.queues peer).abandoned then w
    else
      match w.devices peer, w.hub.receive? peer with
      | some d, some (text, hub) => { w with hub }.setDevice peer (d.made (.handle text))
      | _, _ => w
  | .call peer c =>
    match w.devices peer, c.text? with
    | some d, none => w.setDevice peer (d.made c)
    | _, _ => w

def run (w : World) (actions : List Action) : World := actions.foldl step w

def initial : World := {}

@[simp]
theorem run_nil (w : World) : w.run [] = w := rfl

@[simp]
theorem run_cons (w : World) (a : Action) (rest : List Action) :
    w.run (a :: rest) = (w.step a).run rest := rfl

@[simp]
theorem run_append (w : World) (first rest : List Action) :
    w.run (first ++ rest) = (w.run first).run rest :=
  List.foldl_append

@[simp]
theorem hub_setDevice (w : World) (peer : PeerId) (d : Device) : (w.setDevice peer d).hub = w.hub :=
  rfl

theorem devices_setDevice (w : World) (peer : PeerId) (d : Device) (p : PeerId) :
    (w.setDevice peer d).devices p = if p = peer then some d else w.devices p :=
  rfl

/-- All that one action can do. -/
inductive Step (w : World) : Action → World → Prop where
  | idle (a : Action) : Step w a w
  | joined {room : String} {peer : PeerId} {hub : Hub} (challengeId : String) (kind : Kind)
      (unused : w.devices peer = none) (taken : w.hub.join? room peer = some hub) :
      Step w (.join room peer challengeId kind)
        ({ w with hub }.setDevice peer
          { room, found := (w.hub.peers room).length, challengeId, kind })
  | left {room : String} {peer : PeerId} (member : peer ∈ w.hub.peers room) :
      Step w (.leave room peer) { w with hub := (w.hub.beginLeave room peer).2 }
  | tidied (room : String) : Step w (.tidy room) { w with hub := w.hub.endLeave room }
  | forwarded {room : String} {sender : PeerId} (text : String)
      (member : sender ∈ w.hub.peers room) :
      Step w (.forward room sender text) { w with hub := w.hub.forward room sender text }
  | abandoned (peer : PeerId) : Step w (.abandon peer) { w with hub := w.hub.abandon peer }
  | delivered {peer : PeerId} {d : Device} {text : String} {hub : Hub}
      (device : w.devices peer = some d) (received : w.hub.receive? peer = some (text, hub)) :
      Step w (.deliver peer) ({ w with hub }.setDevice peer (d.made (.handle text)))
  | called {peer : PeerId} {d : Device} {c : Call} (device : w.devices peer = some d)
      (own : c.text? = none) : Step w (.call peer c) (w.setDevice peer (d.made c))

/-- `Step` is all that an action can do. -/
theorem step_step (w : World) (a : Action) : Step w a (w.step a) := by
  cases a with
  | join room peer challengeId kind =>
      simp only [step]
      split
      · exact .idle _
      · rename_i hUnused
        cases hJoin : w.hub.join? room peer with
        | none => exact .idle _
        | some hub => exact .joined challengeId kind (by simpa using hUnused) hJoin
  | leave room peer =>
      simp only [step]
      split
      · rename_i hMember
        exact .left hMember
      · exact .idle _
  | tidy room => exact .tidied room
  | forward room sender text =>
      simp only [step]
      split
      · rename_i hMember
        exact .forwarded text hMember
      · exact .idle _
  | abandon peer => exact .abandoned peer
  | deliver peer =>
      simp only [step]
      split
      · exact .idle _
      · split
        · rename_i hDevice hReceive
          exact .delivered hDevice hReceive
        · exact .idle _
  | call peer c =>
      simp only [step]
      split
      · rename_i hDevice hOwn
        exact .called hDevice hOwn
      · exact .idle _

variable {w w' : World} {a : Action} {p : PeerId} {d : Device}

/-- A text that is put into the queue of a device comes last in its traffic, unless it is not for the
device or is lost. -/
theorem traffic_deliver (d : Device) (q : Queue) (text : String) (forDevice : Prop)
    [Decidable forDevice] :
    ∃ added, d.traffic (if forDevice then q.deliver text else q) = d.traffic q ++ added := by
  split
  · exact ⟨_, by rw [Device.traffic, Device.traffic, q.texts_deliver, List.append_assoc]⟩
  · exact ⟨[], by rw [List.append_nil]⟩

/-- A device stays, and its traffic only grows. -/
theorem Step.grows (h : Step w a w') (hDistinct : ∀ r, (w.hub.peers r).Nodup)
    (hMember : ∀ r, ∀ p ∈ w.hub.peers r, (w.devices p).isSome) (hDevice : w.devices p = some d) :
    ∃ d' added, w'.devices p = some d' ∧ d'.Continues d ∧
      d'.traffic (w'.hub.queues p) = d.traffic (w.hub.queues p) ++ added := by
  have hSame : d.traffic (w.hub.queues p) = d.traffic (w.hub.queues p) ++ [] := by
    rw [List.append_nil]
  cases h with
  | idle => exact ⟨d, [], hDevice, d.continues_refl, hSame⟩
  | @joined room peer hub challengeId kind unused taken =>
      have hOther : p ≠ peer := by
        rintro rfl
        simp [hDevice] at unused
      have hNew : peer ∉ w.hub.peers room := fun hPeer => by simpa [unused] using hMember room peer hPeer
      refine ⟨d, ?_⟩
      rw [devices_setDevice, if_neg hOther, hub_setDevice,
        Hub.queues_of_join? taken (hDistinct room) hNew, if_neg hOther]
      obtain ⟨added, hAdded⟩ := traffic_deliver d (w.hub.queues p) _ (p ∈ w.hub.peers room)
      exact ⟨added, hDevice, d.continues_refl, hAdded⟩
  | @left room peer member =>
      refine ⟨d, ?_⟩
      simp only [Hub.queues_beginLeave member (hDistinct room)]
      split
      · exact ⟨[], hDevice, d.continues_refl, hSame⟩
      · obtain ⟨added, hAdded⟩ := traffic_deliver d (w.hub.queues p) _ (p ∈ w.hub.peers room)
        exact ⟨added, hDevice, d.continues_refl, hAdded⟩
  | tidied room => exact ⟨d, [], hDevice, d.continues_refl, hSame⟩
  | @forwarded room sender text member =>
      refine ⟨d, ?_⟩
      simp only [Hub.queues_forward (hDistinct room)]
      obtain ⟨added, hAdded⟩ := traffic_deliver d (w.hub.queues p) text
        (p ∈ w.hub.peers room ∧ p ≠ sender)
      exact ⟨added, hDevice, d.continues_refl, hAdded⟩
  | abandoned peer =>
      refine ⟨d, [], hDevice, d.continues_refl, ?_⟩
      simp only [Hub.abandon, Hub.queues_updateQueue]
      split <;> exact hSame
  | @delivered peer d' text hub device received =>
      obtain ⟨rest, hTexts, rfl⟩ := Hub.receive?_eq_some received
      by_cases hp : p = peer
      · subst hp
        obtain rfl : d = d' := Option.some.inj (hDevice.symm.trans device)
        refine ⟨d.made (.handle text), [], if_pos rfl, d.made_continues _, ?_⟩
        simp [Device.traffic, Hub.queues_updateQueue, hTexts, Call.text?]
      · refine ⟨d, [], (if_neg hp).trans hDevice, d.continues_refl, ?_⟩
        simp [Hub.queues_updateQueue, hp]
  | @called peer d' c device own =>
      by_cases hp : p = peer
      · subst hp
        obtain rfl : d = d' := Option.some.inj (hDevice.symm.trans device)
        refine ⟨d.made c, [], if_pos rfl, d.made_continues _, ?_⟩
        simp [Device.traffic, own]
      · exact ⟨d, [], (if_neg hp).trans hDevice, d.continues_refl, hSame⟩

/-- In every room an action leaves the peers alone, or seats a new one behind the others, or takes one
out. -/
inductive Reseated (w w' : World) (r : String) : Prop where
  | same (peers : w'.hub.peers r = w.hub.peers r)
  | joined {peer : PeerId} {d : Device} (peers : w'.hub.peers r = w.hub.peers r ++ [peer])
      (room : (w.hub.peers r).length < roomCapacity) (unused : w.devices peer = none)
      (device : w'.devices peer = some d) (seat : d.room = r)
      (found : d.found = (w.hub.peers r).length)
  | left (peer : PeerId) (peers : w'.hub.peers r = (w.hub.peers r).filter (· != peer))

/-- An action changes the peers of a room in one of a few ways. -/
theorem Step.reseated (h : Step w a w') (hRooms : w.hub.DistinctRooms) (r : String) :
    Reseated w w' r := by
  cases h with
  | idle => exact .same rfl
  | @joined room peer hub challengeId kind unused taken =>
      have hPeers := Hub.peers_of_join? taken r
      by_cases hr : r = room
      · subst hr
        rw [if_pos rfl] at hPeers
        exact .joined hPeers (Hub.join?_eq_some taken).1 unused (if_pos rfl) rfl rfl
      · exact .same (hPeers.trans (if_neg hr))
  | @left room peer member =>
      have hPeers := Hub.peers_beginLeave member r
      by_cases hr : r = room
      · subst hr
        exact .left peer (hPeers.trans (if_pos rfl))
      · exact .same (hPeers.trans (if_neg hr))
  | tidied room => exact .same (Hub.peers_endLeave hRooms room r)
  | forwarded text member => exact .same (Hub.peers_congr (Hub.rooms_forward ..) r)
  | abandoned peer => exact .same rfl
  | delivered device received =>
      obtain ⟨rest, -, rfl⟩ := Hub.receive?_eq_some received
      exact .same rfl
  | called => exact .same rfl

/-- A room with other peers than before holds another number of them. -/
theorem Reseated.length_ne {r : String} (h : Reseated w w' r) (hChanged : w'.hub.peers r ≠ w.hub.peers r) :
    (w'.hub.peers r).length ≠ (w.hub.peers r).length := by
  cases h with
  | same peers => exact absurd peers hChanged
  | joined peers => simp [peers]
  | left peer peers =>
      intro hLength
      rw [peers] at hLength hChanged
      exact hChanged (List.filter_sublist.eq_of_length hLength)

/-- A peer that is in a room now was there before, or is new altogether. -/
theorem Reseated.mem_or_new {r : String} (h : Reseated w w' r) (hp : p ∈ w'.hub.peers r) :
    p ∈ w.hub.peers r ∨ w.devices p = none := by
  cases h with
  | same peers => exact .inl (peers ▸ hp)
  | joined peers room unused =>
      rw [peers, List.mem_append, List.mem_singleton] at hp
      refine hp.imp_right ?_
      rintro rfl
      exact unused
  | left peer peers => exact .inl (List.mem_of_mem_filter (peers ▸ hp))

theorem Step.distinctRooms (h : Step w a w') (hRooms : w.hub.DistinctRooms) :
    w'.hub.DistinctRooms := by
  cases h with
  | idle => exact hRooms
  | joined challengeId kind unused taken => exact hRooms.join? taken
  | left member => exact hRooms.beginLeave member
  | tidied room => exact hRooms.endLeave room
  | forwarded text member =>
      rw [Hub.DistinctRooms, Hub.rooms_forward]
      exact hRooms
  | abandoned peer => exact hRooms
  | delivered device received =>
      obtain ⟨rest, -, rfl⟩ := Hub.receive?_eq_some received
      exact hRooms
  | called => exact hRooms

/-- A device that was not there before an action has just joined, and found the peers of its room. -/
theorem Step.joined_of_none (h : Step w a w') (unused : w.devices p = none)
    (hDevice : w'.devices p = some d) :
    a = .join d.room p d.challengeId d.kind ∧ w.hub.join? d.room p = some w'.hub ∧
      d.found = (w.hub.peers d.room).length ∧ d.calls = [] := by
  cases h with
  | @joined room peer hub challengeId kind _ taken =>
      rw [devices_setDevice] at hDevice
      split at hDevice
      · rename_i hp
        subst hp
        cases hDevice
        exact ⟨rfl, taken, rfl, rfl⟩
      · cases unused.symm.trans hDevice
  | @delivered peer _ _ _ device =>
      rw [devices_setDevice] at hDevice
      split at hDevice
      · rename_i hp
        subst hp
        cases unused.symm.trans device
      · cases unused.symm.trans hDevice
  | @called peer _ _ device =>
      rw [devices_setDevice] at hDevice
      split at hDevice
      · rename_i hp
        subst hp
        cases unused.symm.trans device
      · cases unused.symm.trans hDevice
  | _ => cases unused.symm.trans hDevice

/-- Who sits where: rooms have distinct names, and their peers are distinct devices that joined
them. -/
structure Seated (w : World) : Prop where
  rooms : w.hub.DistinctRooms
  distinct : ∀ r, (w.hub.peers r).Nodup
  few : ∀ r, (w.hub.peers r).length ≤ roomCapacity
  device : ∀ r, ∀ p ∈ w.hub.peers r, ∃ d, w.devices p = some d ∧ d.room = r

theorem seated_initial : initial.Seated := by
  constructor <;> simp [initial, Hub.DistinctRooms, Hub.peers, Hub.room?]

/-- Whoever is in a room is a device. -/
theorem Seated.member (hw : w.Seated) (r : String) : ∀ p ∈ w.hub.peers r, (w.devices p).isSome := by
  intro p hp
  obtain ⟨d, hd, -⟩ := hw.device r p hp
  simp [hd]

/-- No action changes that. -/
theorem Seated.step (hw : w.Seated) (h : Step w a w') : w'.Seated := by
  have hDevice (r : String) : ∀ p ∈ w.hub.peers r, ∃ d, w'.devices p = some d ∧ d.room = r := by
    intro p hp
    obtain ⟨d, hd, hRoom⟩ := hw.device r p hp
    obtain ⟨d', -, hd', hContinues, -⟩ := h.grows hw.distinct hw.member hd
    exact ⟨d', hd', hContinues.room_eq.trans hRoom⟩
  refine ⟨h.distinctRooms hw.rooms, fun r => ?_, fun r => ?_, fun r => ?_⟩
  · cases h.reseated hw.rooms r with
    | same peers => exact peers ▸ hw.distinct r
    | @joined peer d peers room unused =>
        have hNew : peer ∉ w.hub.peers r := fun hPeer => by simpa [unused] using hw.member r peer hPeer
        rw [peers]
        exact (hw.distinct r).append (List.nodup_singleton peer) (List.disjoint_singleton.mpr hNew)
    | left peer peers => exact peers ▸ (hw.distinct r).filter _
  · cases h.reseated hw.rooms r with
    | same peers => exact peers ▸ hw.few r
    | joined peers room =>
        rw [peers, List.length_append, List.length_singleton]
        exact room
    | left peer peers =>
        rw [peers]
        exact Nat.le_trans (List.length_filter_le _ _) (hw.few r)
  · cases h.reseated hw.rooms r with
    | same peers => exact peers ▸ hDevice r
    | joined peers room unused device seat =>
        rw [peers]
        refine List.forall_mem_append.mpr ⟨hDevice r, List.forall_mem_singleton.mpr ?_⟩
        exact ⟨_, device, seat⟩
    | left peer peers =>
        rw [peers]
        exact fun p hp => hDevice r p (List.mem_of_mem_filter hp)

theorem Seated.run (hw : w.Seated) (actions : List Action) : (w.run actions).Seated := by
  induction actions generalizing w with
  | nil => exact hw
  | cons x actions ih => exact ih (hw.step (step_step w x))

/-- A device goes on from where it is, whatever happens. -/
theorem Seated.continues_run (hw : w.Seated) (hDevice : w.devices p = some d)
    (actions : List Action) : ∃ d', (w.run actions).devices p = some d' ∧ d'.Continues d := by
  induction actions generalizing w d with
  | nil => exact ⟨d, hDevice, d.continues_refl⟩
  | cons x actions ih =>
      have hStep := step_step w x
      obtain ⟨d₁, -, hDevice₁, hContinues₁, -⟩ := hStep.grows hw.distinct hw.member hDevice
      obtain ⟨d', hDevice', hContinues'⟩ := ih (hw.step hStep) hDevice₁
      exact ⟨d', hDevice', hContinues'.trans hContinues₁⟩

end World

end RemoteSigning.Relay
