import RemoteSigning.Proofs.Relay.Isolation

/-!
# What comes for a peer

All texts that ever come into the queue of a peer, told from what happens in its room: how many peers
there are, after the peer itself has joined and whenever another one joins or leaves, and what the
other peer sends. What comes while the queue is full, or while nobody reads it, is lost, and nothing
else is.
-/

namespace RemoteSigning.Relay

open Ceremony Session

/-- The room whose peers an action can change. -/
def Action.seating? : Action → Option String
  | .join room _ _ _ => some room
  | .leave room _ => some room
  | _ => none

namespace World

/-- All texts that have come into the queue of a peer, since it joined. -/
def traffic (w : World) (p : PeerId) : List String :=
  (w.devices p).elim [] fun d => d.traffic (w.hub.queues p)

/-- Whether a text that comes for a peer is kept. A peer that joins gets a new queue. -/
def accepts (w : World) (p : PeerId) : Bool := (w.devices p).isNone || (w.hub.queues p).hasPlace

/-- What a peer is told of an action that changes who is in its room: whether it is alone there
afterwards. -/
def announced? (w : World) (p : PeerId) (a : Action) : Option Event :=
  a.seating?.bind fun room =>
    let peers := (w.step a).hub.peers room
    if p ∈ peers ∧ peers ≠ w.hub.peers room then
      some (if peers.length = 1 then .waiting else .ready)
    else none

/-- What another peer in its room sends to a peer. -/
def forwarded? (w : World) (p : PeerId) : Action → Option String
  | .forward room sender text =>
    if sender ∈ w.hub.peers room ∧ p ∈ w.hub.peers room ∧ p ≠ sender then some text else none
  | _ => none

/-- What comes for a peer with an action. -/
def arrival? (w : World) (p : PeerId) (a : Action) : Option String :=
  ((w.announced? p a).map Event.text).or (w.forwarded? p a)

/-- What the queue of a device keeps of what an action sends it. -/
def kept (w : World) (p : PeerId) (a : Action) : List String :=
  if w.accepts p then (w.arrival? p a).toList else []

/-- What comes for a peer over a run and is kept. -/
def log (p : PeerId) (w : World) : List Action → List String
  | [] => []
  | a :: rest => w.kept p a ++ log p (w.step a) rest

variable {w w' : World} {a : Action} {p peer : PeerId} {d : Device} {room : String}

theorem kept_eq_nil (h : w.arrival? p a = none) : w.kept p a = [] := by
  rw [kept, h]
  split <;> rfl

/-- The traffic of a device is what it has handled and what waits for it. -/
theorem traffic_of_device (hDevice : w.devices p = some d) :
    w.traffic p = d.handled ++ (w.hub.queues p).texts := by
  rw [traffic, hDevice]
  rfl

/-- A device that has not joined has had no traffic. -/
theorem traffic_of_new (hNew : w.devices p = none) : w.traffic p = [] := by
  rw [traffic, hNew]
  rfl

/-- The texts of a peer that are added to its queue are added to its traffic. -/
theorem traffic_append {added : List String} (hDevice : w'.devices p = w.devices p)
    (hTexts : (w'.hub.queues p).texts = (w.hub.queues p).texts ++ added)
    (hNew : w.devices p = none → added = []) : w'.traffic p = w.traffic p ++ added := by
  cases hOld : w.devices p with
  | none => rw [traffic_of_new hOld, traffic_of_new (hDevice.trans hOld), hNew hOld, List.append_nil]
  | some d =>
      rw [traffic_of_device hOld, traffic_of_device (hDevice.trans hOld), hTexts, List.append_assoc]

/-- Traffic stays the same with the device and its queue. -/
theorem traffic_same (hDevice : w'.devices p = w.devices p)
    (hTexts : (w'.hub.queues p).texts = (w.hub.queues p).texts) : w'.traffic p = w.traffic p := by
  rw [traffic, traffic, hDevice]
  simp only [Device.traffic, hTexts]

/-- A text that is put into the queue of a peer that has joined is added if there is a place. -/
theorem traffic_deliver_of_device (hDevice : w'.devices p = w.devices p)
    (hOld : (w.devices p).isSome) {text : String}
    (hQueue : w'.hub.queues p = (w.hub.queues p).deliver text) :
    w'.traffic p = w.traffic p ++ if w.accepts p then [text] else [] := by
  have hAccepts : w.accepts p = (w.hub.queues p).hasPlace := by
    simp [accepts, Option.isNone_eq_false_iff.mpr hOld]
  refine traffic_append hDevice ?_ fun hNone => ?_
  · rw [hQueue, Queue.texts_deliver, hAccepts]
  · simp [hNone] at hOld

/-- Nothing is announced if nobody joins or leaves. -/
theorem announced?_of_same (hSame : ∀ room, (w.step a).hub.peers room = w.hub.peers room) :
    w.announced? p a = none := by
  rw [announced?]
  cases a.seating? with
  | none => rfl
  | some room => exact if_neg fun h => h.2 (hSame room)

/-- An action that changes nothing brings nothing. -/
theorem arrival?_of_idle (hIdle : w.step a = w) (hQuiet : w.forwarded? p a = none) :
    w.arrival? p a = none := by
  rw [arrival?, hQuiet, announced?_of_same fun room => by rw [hIdle]]
  rfl

/-- If somebody does, those in the room are told how many they are. -/
theorem announced?_of_changed (hRoom : a.seating? = some room)
    (hChanged : (w.step a).hub.peers room ≠ w.hub.peers room) :
    w.announced? p a = if p ∈ (w.step a).hub.peers room then
      some (Hub.announcement ((w.step a).hub.peers room).length) else none := by
  simp only [announced?, hRoom, Option.bind_some, hChanged, ne_eq, not_false_eq_true, and_true]
  split
  · rename_i hp
    rw [Hub.announcement_eq hp]
  · rfl

/-- Joining adds to the traffic of each device what is kept of the announcement. -/
theorem traffic_join (hw : w.Seated) (room : String) (peer : PeerId) (challengeId : String)
    (kind : Kind) (p : PeerId) :
    let a := Action.join room peer challengeId kind
    (w.step a).traffic p = w.traffic p ++ w.kept p a := by
  intro a
  have hIdle (hSame : w.step a = w) : (w.step a).traffic p = w.traffic p ++ w.kept p a := by
    rw [kept_eq_nil (arrival?_of_idle hSame rfl), hSame, List.append_nil]
  cases hUnused : w.devices peer with
  | some d => exact hIdle (by simp [a, step, hUnused])
  | none =>
      cases hJoin : w.hub.join? room peer with
      | none => exact hIdle (by simp [a, step, hUnused, hJoin])
      | some hub =>
          have hStep : w.step a = { w with hub }.setDevice peer
              { room, found := (w.hub.peers room).length, challengeId, kind } := by
            simp [a, step, hUnused, hJoin]
          have hNew : peer ∉ w.hub.peers room := fun hp => by
            simpa [hUnused] using hw.member room peer hp
          have hPeers : (w.step a).hub.peers room = w.hub.peers room ++ [peer] := by
            rw [hStep, hub_setDevice, Hub.peers_of_join? hJoin, if_pos rfl]
          have hQueue := Hub.queues_of_join? hJoin (hw.distinct room) hNew p
          have hChanged : (w.step a).hub.peers room ≠ w.hub.peers room := by simp [hPeers]
          rw [kept, arrival?, announced?_of_changed rfl hChanged, hPeers, List.length_append,
            List.length_singleton]
          by_cases hp : p = peer
          · subst hp
            rw [if_pos rfl] at hQueue
            have hDevice : (w.step a).devices p =
                some { room, found := (w.hub.peers room).length, challengeId, kind } := by
              rw [hStep]
              exact if_pos rfl
            rw [traffic_of_device hDevice, traffic_of_new hUnused, hStep, hub_setDevice, hQueue]
            simp [accepts, hUnused, Device.handled]
          · have hDevice : (w.step a).devices p = w.devices p := by
              rw [hStep]
              exact if_neg hp
            rw [if_neg hp] at hQueue
            by_cases hMember : p ∈ w.hub.peers room
            · rw [if_pos hMember] at hQueue
              rw [traffic_deliver_of_device hDevice (hw.member room p hMember) (by rw [hStep]; exact hQueue)]
              simp [hMember]
            · rw [if_neg hMember] at hQueue
              rw [traffic_same hDevice (by rw [hStep, hub_setDevice, hQueue])]
              simp [hMember, hp, forwarded?, a]

/-- So does leaving. -/
theorem traffic_leave (hw : w.Seated) (room : String) (peer p : PeerId) :
    let a := Action.leave room peer
    (w.step a).traffic p = w.traffic p ++ w.kept p a := by
  intro a
  by_cases member : peer ∈ w.hub.peers room
  · have hStep : w.step a = { w with hub := (w.hub.beginLeave room peer).2 } := by
      simp [a, step, member]
    have hDevice : (w.step a).devices p = w.devices p := by rw [hStep]
    have hPeers : (w.step a).hub.peers room = w.hub.staying room peer := by
      rw [hStep]
      exact (Hub.peers_beginLeave member room).trans (if_pos rfl)
    have hStays : p ∈ w.hub.staying room peer ↔ p ∈ w.hub.peers room ∧ p ≠ peer := by
      simp [Hub.staying]
    have hChanged : (w.step a).hub.peers room ≠ w.hub.peers room := by
      rw [hPeers]
      intro hSame
      have hGone : peer ∉ w.hub.staying room peer := by simp [Hub.staying]
      exact hGone (hSame ▸ member)
    have hQueue := Hub.queues_beginLeave member (hw.distinct room) p
    rw [kept, arrival?, announced?_of_changed rfl hChanged, hPeers]
    by_cases hFor : p ∈ w.hub.peers room ∧ p ≠ peer
    · rw [if_neg hFor.2, if_pos hFor.1] at hQueue
      rw [traffic_deliver_of_device hDevice (hw.member room p hFor.1) (by rw [hStep]; exact hQueue),
        if_pos (hStays.mpr hFor)]
      rfl
    · have hTexts : ((w.hub.beginLeave room peer).2.queues p).texts = (w.hub.queues p).texts := by
        rw [hQueue]
        split
        · rfl
        · rename_i hp
          rw [if_neg fun hMember => hFor ⟨hMember, hp⟩]
      rw [traffic_same hDevice (by rw [hStep]; exact hTexts), if_neg (hStays.not.mpr hFor)]
      simp [forwarded?, a]
  · have hIdle : w.step a = w := by simp [a, step, member]
    rw [kept_eq_nil (arrival?_of_idle hIdle rfl), hIdle, List.append_nil]

/-- Forwarding adds what is kept of the text. -/
theorem traffic_forward (hw : w.Seated) (room : String) (sender : PeerId) (text : String)
    (p : PeerId) :
    let a := Action.forward room sender text
    (w.step a).traffic p = w.traffic p ++ w.kept p a := by
  intro a
  by_cases member : sender ∈ w.hub.peers room
  · have hStep : w.step a = { w with hub := w.hub.forward room sender text } := by
      simp [a, step, member]
    have hDevice : (w.step a).devices p = w.devices p := by rw [hStep]
    have hQueue := Hub.queues_forward (hw.distinct room) sender text p
    have hArrival : w.arrival? p a =
        if p ∈ w.hub.peers room ∧ p ≠ sender then some text else none := by
      simp [arrival?, announced?, Action.seating?, forwarded?, a, member]
    rw [kept, hArrival]
    by_cases hFor : p ∈ w.hub.peers room ∧ p ≠ sender
    · rw [if_pos hFor] at hQueue
      rw [traffic_deliver_of_device hDevice (hw.member room p hFor.1) (by rw [hStep]; exact hQueue),
        if_pos hFor]
      rfl
    · rw [if_neg hFor] at hQueue
      rw [traffic_same hDevice (by rw [hStep, hQueue]), if_neg hFor]
      simp
  · have hIdle : w.step a = w := by simp [a, step, member]
    rw [kept_eq_nil (arrival?_of_idle hIdle (by simp [forwarded?, a, member])), hIdle,
      List.append_nil]

/-- What an action adds to the traffic of a peer is what comes with it, if it is kept. -/
theorem traffic_step (hw : w.Seated) (a : Action) (p : PeerId) :
    (w.step a).traffic p = w.traffic p ++ w.kept p a := by
  -- Only three kinds of actions put anything into a queue.
  have hSame (hNothing : w.arrival? p a = none) (hTraffic : (w.step a).traffic p = w.traffic p) :
      (w.step a).traffic p = w.traffic p ++ w.kept p a := by
    rw [hTraffic, kept_eq_nil hNothing, List.append_nil]
  cases a with
  | join room peer challengeId kind => exact traffic_join hw room peer challengeId kind p
  | leave room peer => exact traffic_leave hw room peer p
  | forward room sender text => exact traffic_forward hw room sender text p
  | tidy room => exact hSame rfl rfl
  | abandon peer =>
      refine hSame rfl (traffic_same rfl ?_)
      simp only [step, Hub.abandon, Hub.queues_updateQueue]
      split <;> rfl
  | deliver peer =>
      refine hSame rfl ?_
      simp only [step]
      split
      · rfl
      · split
        · rename_i d text hub hDevice hReceive
          obtain ⟨rest, hTexts, rfl⟩ := Hub.receive?_eq_some hReceive
          by_cases hp : p = peer
          · subst hp
            rw [traffic_of_device hDevice, traffic_of_device (if_pos rfl)]
            simp [Hub.queues_updateQueue, hTexts, Call.text?]
          · exact traffic_same (if_neg hp) (by simp [Hub.queues_updateQueue, hp])
        · rfl
  | call peer c =>
      refine hSame rfl ?_
      simp only [step]
      split
      · rename_i d hDevice hOwn
        by_cases hp : p = peer
        · subst hp
          rw [traffic_of_device hDevice, traffic_of_device (if_pos rfl)]
          simp [hOwn]
        · exact traffic_same (if_neg hp) rfl
      · rfl

/-- By induction on the actions: traffic grows by what is kept of each of them. -/
theorem traffic_run (hw : w.Seated) (actions : List Action) (p : PeerId) :
    (w.run actions).traffic p = w.traffic p ++ w.log p actions := by
  induction actions generalizing w with
  | nil => exact (List.append_nil _).symm
  | cons a actions ih =>
      rw [run_cons, ih (hw.step (step_step w a)), traffic_step hw, log, List.append_assoc]

end World

end RemoteSigning.Relay
