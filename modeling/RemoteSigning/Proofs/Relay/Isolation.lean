import RemoteSigning.Proofs.Relay.Devices

/-!
# Rooms apart

What happens in a room depends on nothing that happens in other rooms. So a run from which all that
happens elsewhere is left out ends alike in the room: the same peers are there, with the same texts
in their queues, and their sessions have been handed the same ones.
-/

namespace RemoteSigning.Relay

open Ceremony Session

/-- Where an action takes place, if each device is at home in the room that it joins. -/
def Action.place (home : PeerId → String) : Action → String
  | .join room _ _ _ => room
  | .leave room _ => room
  | .tidy room => room
  | .forward room _ _ => room
  | .abandon peer => home peer
  | .deliver peer => home peer
  | .call peer _ => home peer

/-- Whether an action takes no device to a room in which it is not at home. -/
def Action.LeadsHome (home : PeerId → String) : Action → Prop
  | .join room peer _ _ => home peer = room
  | _ => True

variable {w w' v : World} {a : Action} {p : PeerId} {d : Device} {home : PeerId → String}
  {r : String}

namespace World

/-- Whether all devices are in the rooms in which they are at home. -/
structure AtHome (home : PeerId → String) (w : World) : Prop where
  seated : w.Seated
  room : ∀ p d, w.devices p = some d → home p = d.room

/-- At first nobody is anywhere else. -/
theorem atHome_initial (home : PeerId → String) : initial.AtHome home :=
  ⟨seated_initial, by simp [initial]⟩

/-- Whoever is in a room is at home there. -/
theorem AtHome.home_of_mem (hw : w.AtHome home) (hp : p ∈ w.hub.peers r) : home p = r := by
  obtain ⟨d, hd, hRoom⟩ := hw.seated.device r p hp
  exact (hw.room p d hd).trans hRoom

/-- Actions that lead devices home keep them at home. -/
theorem AtHome.step (hw : w.AtHome home) (hHome : a.LeadsHome home) (h : Step w a w') :
    w'.AtHome home := by
  refine ⟨hw.seated.step h, fun p d hDevice => ?_⟩
  cases hOld : w.devices p with
  | none =>
      obtain ⟨rfl, -⟩ := h.joined_of_none hOld hDevice
      exact hHome
  | some d₀ =>
      obtain ⟨d', -, hDevice', hContinues, -⟩ := h.grows hw.seated.distinct hw.seated.member hOld
      obtain rfl : d' = d := Option.some.inj (hDevice'.symm.trans hDevice)
      exact (hw.room p d₀ hOld).trans hContinues.room_eq.symm

/-- Whether two worlds are alike in a room. -/
structure Alike (home : PeerId → String) (r : String) (w v : World) : Prop where
  peers : w.hub.peers r = v.hub.peers r
  device : ∀ p, home p = r → w.devices p = v.devices p
  queue : ∀ p, home p = r → w.hub.queues p = v.hub.queues p

theorem alike_refl (home : PeerId → String) (r : String) (w : World) : Alike home r w w :=
  ⟨rfl, fun _ _ => rfl, fun _ _ => rfl⟩

/-- Worlds that are alike to a third one are alike. -/
theorem Alike.trans {u : World} (h : Alike home r w v) (h' : Alike home r v u) :
    Alike home r w u :=
  ⟨h.peers.trans h'.peers, fun p hp => (h.device p hp).trans (h'.device p hp),
    fun p hp => (h.queue p hp).trans (h'.queue p hp)⟩

/-- What happens elsewhere leaves the room alone. -/
theorem Step.alike (h : Step w a w') (hw : w.AtHome home) (hHome : a.LeadsHome home)
    (hPlace : a.place home ≠ r) : Alike home r w' w := by
  have hSeated := hw.seated
  cases h with
  | idle => exact alike_refl home r w
  | @joined room peer hub challengeId kind unused taken =>
      have hNew : peer ∉ w.hub.peers room := fun hPeer => by
        simpa [unused] using hSeated.member room peer hPeer
      have hOther {p : PeerId} (hp : home p = r) : p ≠ peer ∧ p ∉ w.hub.peers room := by
        refine ⟨?_, fun hMember => hPlace ((hw.home_of_mem hMember).symm.trans hp)⟩
        rintro rfl
        exact hPlace (hHome.symm.trans hp)
      refine ⟨?_, fun p hp => if_neg (hOther hp).1, fun p hp => ?_⟩
      · exact (Hub.peers_of_join? taken r).trans (if_neg (Ne.symm hPlace))
      · rw [hub_setDevice, Hub.queues_of_join? taken (hSeated.distinct room) hNew,
          if_neg (hOther hp).1, if_neg (hOther hp).2]
  | @left room peer member =>
      refine ⟨?_, fun _ _ => rfl, fun p hp => ?_⟩
      · exact (Hub.peers_beginLeave member r).trans (if_neg (Ne.symm hPlace))
      · have hOther : p ∉ w.hub.peers room := fun hMember =>
          hPlace ((hw.home_of_mem hMember).symm.trans hp)
        rw [Hub.queues_beginLeave member (hSeated.distinct room), if_neg, if_neg hOther]
        rintro rfl
        exact hOther member
  | tidied room => exact ⟨Hub.peers_endLeave hSeated.rooms room r, fun _ _ => rfl, fun _ _ => rfl⟩
  | @forwarded room sender text member =>
      refine ⟨Hub.peers_congr (Hub.rooms_forward ..) r, fun _ _ => rfl, fun p hp => ?_⟩
      rw [Hub.queues_forward (hSeated.distinct room), if_neg]
      exact fun hFor => hPlace ((hw.home_of_mem hFor.1).symm.trans hp)
  | abandoned peer =>
      refine ⟨rfl, fun _ _ => rfl, fun p hp => if_neg ?_⟩
      rintro rfl
      exact hPlace hp
  | @delivered peer d text hub device received =>
      obtain ⟨rest, -, rfl⟩ := Hub.receive?_eq_some received
      have hOther {p : PeerId} (hp : home p = r) : p ≠ peer := by
        rintro rfl
        exact hPlace hp
      exact ⟨rfl, fun p hp => if_neg (hOther hp), fun p hp => if_neg (hOther hp)⟩
  | @called peer d c device own =>
      have hOther {p : PeerId} (hp : home p = r) : p ≠ peer := by
        rintro rfl
        exact hPlace hp
      exact ⟨rfl, fun p hp => if_neg (hOther hp), fun _ _ => rfl⟩

section Same

variable (h : Alike home r w v)

include h

/-- Joining a room looks the same from it in worlds that are alike. -/
theorem Alike.join (hw : w.Seated) (hv : v.Seated) (challengeId : String) (kind : Kind)
    (hHome : home p = r) :
    Alike home r (w.step (.join r p challengeId kind)) (v.step (.join r p challengeId kind)) := by
  have hDevice := h.device p hHome
  simp only [World.step, ← hDevice]
  split
  · exact h
  · rename_i hUnused
    rw [Option.not_isSome_iff_eq_none] at hUnused
    have hNew : p ∉ w.hub.peers r := fun hp => by simpa [hUnused] using hw.member r p hp
    cases hJoin : w.hub.join? r p with
    | none =>
        have hFull : v.hub.join? r p = none := by
          rw [Hub.join?_eq_none, ← h.peers]
          exact Hub.join?_eq_none.mp hJoin
        simpa only [hFull] using h
    | some hub =>
        obtain ⟨hub', hJoin'⟩ : ∃ hub', v.hub.join? r p = some hub' := by
          refine Option.ne_none_iff_exists'.mp fun hFull => ?_
          rw [Hub.join?_eq_none, ← h.peers] at hFull
          exact Option.some_ne_none hub (hJoin.symm.trans (Hub.join?_eq_none.mpr hFull))
        simp only [hJoin']
        refine ⟨?_, fun q hq => ?_, fun q hq => ?_⟩
        · rw [hub_setDevice, hub_setDevice, Hub.peers_of_join? hJoin, Hub.peers_of_join? hJoin',
            h.peers]
        · rw [devices_setDevice, devices_setDevice, h.peers, h.device q hq]
        · rw [hub_setDevice, hub_setDevice, Hub.queues_of_join? hJoin (hw.distinct r) hNew,
            Hub.queues_of_join? hJoin' (hv.distinct r) (h.peers ▸ hNew), h.peers, h.queue q hq]

/-- So does leaving it. -/
theorem Alike.leave (hw : w.Seated) (hv : v.Seated) (peer : PeerId) :
    Alike home r (w.step (.leave r peer)) (v.step (.leave r peer)) := by
  simp only [World.step, ← h.peers]
  split
  · rename_i member
    have member' : peer ∈ v.hub.peers r := h.peers ▸ member
    refine ⟨?_, h.device, fun q hq => ?_⟩
    · rw [Hub.peers_beginLeave member, Hub.peers_beginLeave member', Hub.staying, Hub.staying,
        h.peers]
    · rw [Hub.queues_beginLeave member (hw.distinct r), Hub.queues_beginLeave member' (hv.distinct r),
        Hub.staying, Hub.staying, h.peers, h.queue q hq]
  · exact h

/-- So does forwarding in it. -/
theorem Alike.forward (hw : w.Seated) (hv : v.Seated) (sender : PeerId) (text : String) :
    Alike home r (w.step (.forward r sender text)) (v.step (.forward r sender text)) := by
  simp only [World.step, ← h.peers]
  split
  · refine ⟨?_, h.device, fun q hq => ?_⟩
    · rw [Hub.peers_congr (Hub.rooms_forward ..), Hub.peers_congr (Hub.rooms_forward ..), h.peers]
    · rw [Hub.queues_forward (hw.distinct r), Hub.queues_forward (hv.distinct r), h.peers,
        h.queue q hq]
  · exact h

/-- So does reading what has been forwarded. -/
theorem Alike.deliver (hHome : home p = r) :
    Alike home r (w.step (.deliver p)) (v.step (.deliver p)) := by
  simp only [World.step, Hub.receive?, ← h.queue p hHome, ← h.device p hHome]
  split
  · exact h
  · cases w.devices p with
    | none => exact h
    | some d =>
        cases (w.hub.queues p).texts with
        | nil => exact h
        | cons text rest =>
            refine ⟨h.peers, fun q hq => ?_, fun q hq => ?_⟩
            · rw [devices_setDevice, devices_setDevice, h.device q hq]
            · rw [hub_setDevice, hub_setDevice, Hub.queues_updateQueue, Hub.queues_updateQueue,
                h.queue q hq]

/-- So does a call of a device that is at home in it. -/
theorem Alike.call (hHome : home p = r) (c : Call) :
    Alike home r (w.step (.call p c)) (v.step (.call p c)) := by
  simp only [World.step, ← h.device p hHome]
  split
  · refine ⟨h.peers, fun q hq => ?_, h.queue⟩
    rw [devices_setDevice, devices_setDevice, h.device q hq]
  · exact h

/-- What happens in the room happens in both worlds alike. -/
theorem Alike.step (hw : w.Seated) (hv : v.Seated) (hHome : a.LeadsHome home)
    (hPlace : a.place home = r) : Alike home r (w.step a) (v.step a) := by
  subst hPlace
  cases a with
  | join room peer challengeId kind => exact h.join hw hv challengeId kind hHome
  | leave room peer => exact h.leave hw hv peer
  | tidy room =>
      refine ⟨?_, h.device, h.queue⟩
      exact (Hub.peers_endLeave hw.rooms room room).trans
        (h.peers.trans (Hub.peers_endLeave hv.rooms room room).symm)
  | forward room sender text => exact h.forward hw hv sender text
  | abandon peer =>
      refine ⟨h.peers, h.device, fun q hq => ?_⟩
      simp only [World.step, Hub.abandon, Hub.queues_updateQueue, h.queue q hq]
  | deliver peer => exact h.deliver rfl
  | call peer c => exact h.call rfl c

end Same

/-- Seen from a room, a run is the same as what is done in this room alone. -/
theorem Alike.run {actions : List Action} {w v : World} (h : Alike home r w v)
    (hw : w.AtHome home) (hv : v.AtHome home) (hHome : ∀ a ∈ actions, a.LeadsHome home) :
    Alike home r (w.run actions) (v.run (actions.filter fun a => a.place home = r)) := by
  induction actions generalizing w v with
  | nil => exact h
  | cons a actions ih =>
      obtain ⟨hFirst, hRest⟩ := List.forall_mem_cons.mp hHome
      have hw' := hw.step hFirst (step_step w a)
      rw [run_cons]
      by_cases hPlace : a.place home = r
      · rw [List.filter_cons_of_pos (by simpa using hPlace), run_cons]
        exact ih (h.step hw.seated hv.seated hFirst hPlace) hw' (hv.step hFirst (step_step v a)) hRest
      · rw [List.filter_cons_of_neg (by simpa using hPlace)]
        exact ih (((step_step w a).alike hw hFirst hPlace).trans h) hw' hv hRest

end World

end RemoteSigning.Relay
