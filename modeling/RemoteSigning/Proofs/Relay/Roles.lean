import RemoteSigning.Proofs.Relay.Devices
import Mathlib.Data.List.Pairwise

/-!
# Roles at a relay

A device hears first whether its room held a peer when it joined, whatever other peers send and
whoever leaves. So the roles of sessions are settled by the order of joining: the initiator of a room
is the device that found it empty, and there is no other as long as it stays.
-/

namespace RemoteSigning.Relay

open Ceremony Session

variable {w w' : World} {a : Action} {p : PeerId} {d : Device}

/-- An announcement is heard as what is announced. -/
theorem textStageEvent?_announcement (count : Nat) :
    textStageEvent? (Hub.announcement count).text = some (Hub.announcement count) := by
  rw [textStageEvent?, frame?, Frame.ofText_event, Hub.announcement]
  split <;> rfl

/-- A peer that is alone is told to wait. -/
theorem announcement_eq_waiting_iff (count : Nat) :
    Hub.announcement count = .waiting ↔ count < roomCapacity := by
  simp [Hub.announcement]

/-- Peers of a full room are told that they are ready. -/
theorem announcement_eq_ready_iff (count : Nat) :
    Hub.announcement count = .ready ↔ roomCapacity ≤ count := by
  simp [Hub.announcement]

namespace World

/-- Whether two devices did not both find their room empty. -/
def FoundApart (w : World) (p q : PeerId) : Prop :=
  ∀ d e, w.devices p = some d → w.devices q = some e → d.found = 0 → e.found ≠ 0

instance (w : World) : Std.Symm w.FoundApart where
  symm _ _ h d e hd he hFound hFound' := h e d he hd hFound' hFound

/-- How the devices of a relay came together: each has first been told how many peers it found, and
no two peers of a room have both found it empty. -/
structure Announced (w : World) : Prop where
  seated : w.Seated
  found : ∀ p d, w.devices p = some d → d.found < roomCapacity
  first : ∀ p d, w.devices p = some d →
    ∃ rest, d.traffic (w.hub.queues p) = (Hub.announcement (d.found + 1)).text :: rest
  apart : ∀ r, (w.hub.peers r).Pairwise w.FoundApart

theorem announced_initial : initial.Announced :=
  ⟨seated_initial, by simp [initial], by simp [initial],
    by simp [initial, Hub.peers, Hub.room?]⟩

/-- A device that was there before keeps what it found, and what it was told first. -/
theorem Announced.kept {d' : Device} (hw : w.Announced) (h : Step w a w')
    (hDevice : w.devices p = some d) (hDevice' : w'.devices p = some d') :
    d'.found = d.found ∧
      ∃ rest, d'.traffic (w'.hub.queues p) = (Hub.announcement (d.found + 1)).text :: rest := by
  obtain ⟨e, added, hd', hContinues, hTraffic⟩ :=
    h.grows hw.seated.distinct hw.seated.member hDevice
  obtain rfl : e = d' := Option.some.inj (hd'.symm.trans hDevice')
  obtain ⟨rest, hFirst⟩ := hw.first p d hDevice
  exact ⟨hContinues.found_eq, rest ++ added, by rw [hTraffic, hFirst, List.cons_append]⟩

/-- A device finds no full room. -/
theorem Announced.found_step (hw : w.Announced) (h : Step w a w') (hDevice : w'.devices p = some d) :
    d.found < roomCapacity := by
  cases hOld : w.devices p with
  | some d₀ =>
      rw [(hw.kept h hOld hDevice).1]
      exact hw.found p d₀ hOld
  | none =>
      obtain ⟨-, taken, hFound, -⟩ := h.joined_of_none hOld hDevice
      rw [hFound]
      exact (Hub.join?_eq_some taken).1

/-- The first thing that a device is told is what it found. -/
theorem Announced.first_step (hw : w.Announced) (h : Step w a w') (hDevice : w'.devices p = some d) :
    ∃ rest, d.traffic (w'.hub.queues p) = (Hub.announcement (d.found + 1)).text :: rest := by
  cases hOld : w.devices p with
  | some d₀ =>
      obtain ⟨hSame, hFirst⟩ := hw.kept h hOld hDevice
      rw [hSame]
      exact hFirst
  | none =>
      obtain ⟨-, taken, hFound, hCalls⟩ := h.joined_of_none hOld hDevice
      have hNew : p ∉ w.hub.peers d.room := fun hPeer => by
        simpa [hOld] using hw.seated.member d.room p hPeer
      refine ⟨[], ?_⟩
      rw [Hub.queues_of_join? taken (hw.seated.distinct d.room) hNew, if_pos rfl, hFound,
        Device.traffic, Device.handled, hCalls]
      rfl

/-- Of the devices in one room, at most one found it empty. -/
theorem Announced.apart_step (hw : w.Announced) (h : Step w a w') (r : String) :
    (w'.hub.peers r).Pairwise w'.FoundApart := by
  have hStay : (w.hub.peers r).Pairwise w'.FoundApart := by
    refine (hw.apart r).imp_of_mem fun {q q'} hq hq' hApart d e hDevice hDevice' => ?_
    obtain ⟨d₀, hOld, -⟩ := hw.seated.device r q hq
    obtain ⟨e₀, hOld', -⟩ := hw.seated.device r q' hq'
    rw [(hw.kept h hOld hDevice).1, (hw.kept h hOld' hDevice').1]
    exact hApart d₀ e₀ hOld hOld'
  cases h.reseated hw.seated.rooms r with
  | same peers => exact peers ▸ hStay
  | @joined peer d peers room unused device seat found =>
      -- The new peer has found the others, so it has not found the room empty.
      rw [peers]
      refine List.pairwise_append.mpr ⟨hStay, List.pairwise_singleton _ _, fun q hq _ hPeer => ?_⟩
      obtain rfl := List.mem_singleton.mp hPeer
      intro _ d' _ hDevice _
      obtain rfl : d = d' := Option.some.inj (device.symm.trans hDevice)
      rw [found]
      exact (List.length_pos_of_mem hq).ne'
  | left peer peers => exact peers ▸ hStay.filter _

theorem Announced.step (hw : w.Announced) (h : Step w a w') : w'.Announced :=
  ⟨hw.seated.step h, fun _ _ => hw.found_step h, fun _ _ => hw.first_step h, hw.apart_step h⟩

/-- So it is in every run. -/
theorem announced_run (actions : List Action) : (initial.run actions).Announced := by
  induction actions using List.reverseRecOn with
  | nil => exact announced_initial
  | append_singleton actions a ih =>
      rw [run_append]
      exact ih.step (step_step _ a)

/-- A device takes its role from the first announcement. -/
theorem Announced.origin (hw : w.Announced) (hDevice : w.devices p = some d)
    (hHandled : d.handled ≠ []) :
    d.session.role.origin = some (Hub.announcement (d.found + 1)) := by
  obtain ⟨rest, hFirst⟩ := hw.first p d hDevice
  obtain ⟨text, later, hTexts⟩ := List.exists_cons_of_ne_nil hHandled
  rw [Device.traffic, hTexts, List.cons_append, List.cons.injEq] at hFirst
  exact Device.origin_of_handled_cons (hFirst.1 ▸ hTexts) (textStageEvent?_announcement _)

/-- A device that has been told something is the initiator exactly if it found nobody. -/
theorem Announced.isInitiator_iff (hw : w.Announced) (hDevice : w.devices p = some d)
    (hHandled : d.handled ≠ []) : d.session.isInitiator ↔ d.found = 0 := by
  rw [Session.isInitiator_iff, hw.origin hDevice hHandled, Option.some.injEq,
    announcement_eq_waiting_iff, roomCapacity]
  omega

/-- It is the scanner exactly if it found one peer. -/
theorem Announced.scanner_iff (hw : w.Announced) (hDevice : w.devices p = some d)
    (hHandled : d.handled ≠ []) : d.session.role = .scanner ↔ d.found = 1 := by
  have hFew := hw.found p d hDevice
  rw [Session.scanner_iff, hw.origin hDevice hHandled, Option.some.injEq, announcement_eq_ready_iff]
  rw [roomCapacity] at hFew ⊢
  omega

theorem Announced.found_of_isInitiator (hw : w.Announced) (hDevice : w.devices p = some d)
    (hInitiator : d.session.isInitiator) : d.found = 0 := by
  refine (hw.isInitiator_iff hDevice fun hNothing => ?_).mp hInitiator
  rw [isInitiator, Device.role_of_handled_nil hNothing] at hInitiator
  cases hInitiator

/-- Two initiators in one room are the same device. -/
theorem Announced.eq_of_isInitiator {r : String} {q : PeerId} {e : Device} (hw : w.Announced)
    (hp : p ∈ w.hub.peers r) (hq : q ∈ w.hub.peers r) (hDevice : w.devices p = some d)
    (hDevice' : w.devices q = some e) (hInitiator : d.session.isInitiator)
    (hInitiator' : e.session.isInitiator) : p = q := by
  by_contra hNe
  exact (hw.apart r).forall hp hq hNe d e hDevice hDevice'
    (hw.found_of_isInitiator hDevice hInitiator) (hw.found_of_isInitiator hDevice' hInitiator')

/-- Over any run, a device that has handled something is the initiator if it found its room empty and
the scanner if it found another device there. So at any time a room has one initiator at most. -/
theorem at_most_one_initiator (actions : List Action) :
    let w := initial.run actions
    (∀ p d, w.devices p = some d → d.handled ≠ [] →
      (d.session.isInitiator ↔ d.found = 0) ∧ (d.session.role = .scanner ↔ d.found = 1)) ∧
    ∀ r p q d e, p ∈ w.hub.peers r → q ∈ w.hub.peers r → w.devices p = some d →
      w.devices q = some e → d.session.isInitiator → e.session.isInitiator → p = q := by
  intro w
  have hw : w.Announced := announced_run actions
  refine ⟨fun p d hDevice hHandled => ?_, fun r p q d e hp hq hDevice hDevice' => ?_⟩
  · exact ⟨hw.isInitiator_iff hDevice hHandled, hw.scanner_iff hDevice hHandled⟩
  · exact hw.eq_of_isInitiator hp hq hDevice hDevice'

/-- Two devices that share a room, expect the same ceremony, are connected, and have handled whatever
has come for them. -/
structure Paired (w : World) (r : String) (p q : PeerId) (d e : Device) : Prop where
  sender : p ∈ w.hub.peers r
  other : q ∈ w.hub.peers r
  ne : p ≠ q
  device : w.devices p = some d
  device' : w.devices q = some e
  read : (w.hub.queues p).texts = []
  read' : (w.hub.queues q).texts = []
  kind : d.kind = e.kind
  opened : d.session.connection = .opened
  opened' : e.session.connection = .opened

/-- A device that has nothing left to read has handled something, since it was told first whom it
found. -/
theorem Announced.handled_ne_nil (hw : w.Announced) (hDevice : w.devices p = some d)
    (hRead : (w.hub.queues p).texts = []) : d.handled ≠ [] := by
  obtain ⟨rest, hFirst⟩ := hw.first p d hDevice
  rw [Device.traffic, hRead, List.append_nil] at hFirst
  simp [hFirst]

/-- Whoever sends over the relay is a scanner, and sends its credential encoded. -/
theorem relay_of_routeCeremony {s s' : Session} {c : Credential} {m : CredentialMessage}
    (h : s.run (routeCeremony (.ok c)) = (.ok (.relay m), s')) :
    s.role = .scanner ∧ m = c.encode := by
  rw [run_routeCeremony_ok] at h
  split at h
  · rename_i hSends
    simp only [sendsOverRelay, Bool.and_eq_true, beq_iff_eq] at hSends
    refine ⟨hSends.1.1, ?_⟩
    cases h
    rfl
  · cases h

/-- A session that is no initiator lets any credential pass. -/
theorem handleFrame_credential_of_scanner {s : Session} (h : s.role = .scanner)
    (m : CredentialMessage) : s.run (handleFrame (.credential m)) = (.ok none, s) := by
  simp [run_handleCredential, isInitiator, h]

/-- When a device would send its credential over the relay, the other device of the room is an
initiator exactly if it found the room empty. Otherwise, since the device that had opened the room is
gone, the other one is a scanner as well, and the credential would be lost on it. -/
theorem relayed_to_initiator_iff {r : String} {p q : PeerId} {d e : Device} {c : Credential}
    {m : CredentialMessage} {s : Session} (actions : List Action)
    (hPaired : (initial.run actions).Paired r p q d e)
    (hRoute : d.session.run (routeCeremony (.ok c)) = (.ok (.relay m), s)) :
    d.found = 1 ∧ (e.session.isInitiator ↔ e.found = 0) ∧
      (e.found ≠ 0 → e.session.role = .scanner ∧
        ∀ m, e.session.run (handleFrame (.credential m)) = (.ok none, e.session)) := by
  have hw : (initial.run actions).Announced := announced_run actions
  have hSender := hw.handled_ne_nil hPaired.device hPaired.read
  have hOther := hw.handled_ne_nil hPaired.device' hPaired.read'
  have hScanner : e.found ≠ 0 → e.session.role = .scanner := by
    intro hFound
    have hFew := hw.found q e hPaired.device'
    rw [hw.scanner_iff hPaired.device' hOther]
    rw [roomCapacity] at hFew
    omega
  refine ⟨?_, hw.isInitiator_iff hPaired.device' hOther, fun hFound => ⟨hScanner hFound, ?_⟩⟩
  · exact (hw.scanner_iff hPaired.device hSender).mp (relay_of_routeCeremony hRoute).1
  · exact handleFrame_credential_of_scanner (hScanner hFound)

/-- The device that opened a room leaves it, and another one takes its place. -/
def replacement : List Action :=
  [.join "room" 0 "room" .get, .join "room" 1 "room" .get, .call 1 .onOpen, .deliver 1,
    .leave "room" 0, .deliver 1, .join "room" 2 "room" .get, .call 2 .onOpen, .deliver 1,
    .deliver 2]

/-- The device that stays. -/
def remaining : Device where
  room := "room"
  found := 1
  challengeId := "room"
  kind := .get
  calls := [.onOpen, .handle Event.ready.text, .handle Event.waiting.text,
    .handle Event.ready.text]

/-- The device that takes the place of the one that left: it came second, and has been told so. -/
def scanning : Device where
  room := "room"
  found := 1
  challengeId := "room"
  kind := .get
  calls := [.onOpen, .handle Event.ready.text]

/-- The device that remains is a scanner that is ready. -/
theorem session_remaining : remaining.session =
    { start "room" .get with connection := .opened, stage := .ready, role := .scanner } := by
  simp only [Device.session, remaining, after_cons, after_nil, call_handle_event]
  rfl

/-- So is the one that comes in place of the other. -/
theorem session_scanning : scanning.session =
    { start "room" .get with connection := .opened, stage := .ready, role := .scanner } := by
  simp only [Device.session, scanning, after_cons, after_nil, call_handle_event]
  rfl

/-- They are the pair in the room. -/
theorem paired_replacement : (initial.run replacement).Paired "room" 1 2 remaining scanning where
  sender := by decide
  other := by decide
  ne := by decide
  device := rfl
  device' := rfl
  read := rfl
  read' := rfl
  kind := rfl
  opened := by rw [session_remaining]
  opened' := by rw [session_scanning]

/-- The device that stays is told to send its credential over the relay, to one that lets it pass. -/
theorem replacement_loses_credential :
    let c := Credential.assertion { response := {} }
    ∃ d e s, (initial.run replacement).Paired "room" 1 2 d e ∧
      d.session.run (routeCeremony (.ok c)) = (.ok (.relay c.encode), s) ∧
      e.session.role = .scanner ∧
      ∀ m, e.session.run (handleFrame (.credential m)) = (.ok none, e.session) := by
  intro c
  have hRoute : remaining.session.run (routeCeremony (.ok c)) =
      (.ok (.relay c.encode), { remaining.session with stage := .responded }) := by
    rw [session_remaining]
    rfl
  obtain ⟨-, -, hLost⟩ := relayed_to_initiator_iff replacement paired_replacement hRoute
  exact ⟨remaining, scanning, _, paired_replacement, hRoute, hLost (by decide)⟩

end World

end RemoteSigning.Relay
