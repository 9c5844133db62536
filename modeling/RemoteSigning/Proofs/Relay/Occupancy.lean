import RemoteSigning.Proofs.Relay.Logs
import RemoteSigning.Proofs.Relay.Roles
import Mathlib.Algebra.Group.Nat.Even

/-!
# Who else is there, as a peer has been told

A peer is told of every change in its room, but an announcement comes through the same queue as what
the other peer sends, and is lost like anything else when the queue is full. As a room holds two
peers at most, each change turns a lone peer into one of two or back. So what a peer was told last is
right exactly if the number of announcements it has missed since then is even.
-/

namespace RemoteSigning.Relay

open Ceremony Session

/-- Whether an action forwards no text that is read as an event. -/
def Action.IsPlain : Action → Prop
  | .forward _ _ text => ∀ e, Frame.ofText text ≠ .ok (.event e)
  | _ => True

/-- A text that is no event says nothing about the stage. -/
theorem textStageEvent?_of_plain {text : String} (h : ∀ e, Frame.ofText text ≠ .ok (.event e)) :
    textStageEvent? text = none := by
  cases hFrame : Frame.ofText text with
  | error e => simp [textStageEvent?, frame?, hFrame, Except.toOption]
  | ok f =>
      cases f with
      | event e => exact absurd hFrame (h e)
      | credential m => simp [textStageEvent?, frame?, hFrame, Except.toOption, Frame.stageEvent?]
      | unknown v => simp [textStageEvent?, frame?, hFrame, Except.toOption, Frame.stageEvent?]

namespace World

/-- The last stage event among all that has come for a peer and was kept. -/
def told? (w : World) (p : PeerId) : Option Event :=
  ((w.traffic p).filterMap textStageEvent?).getLast?

/-- How many announcements in a row a peer has missed after an action, if there were `n` before. -/
def missing (w : World) (p : PeerId) (n : Nat) (a : Action) : Nat :=
  if w.announced? p a = none then n else if w.accepts p then 0 else n + 1

/-- How many announcements a peer has missed at the end of a run since it last got one. -/
def missed (p : PeerId) (n : Nat) (w : World) : List Action → Nat
  | [] => n
  | a :: rest => missed p (w.missing p n a) (w.step a) rest

variable {w w' : World} {a : Action} {p : PeerId} {d : Device} {r : String} {n : Nat}

/-- The peers of a room change only by joining it and by leaving it. -/
theorem Step.peers_of_seating (h : Step w a w') (hRooms : w.hub.DistinctRooms)
    (hRoom : a.seating? ≠ some r) : w'.hub.peers r = w.hub.peers r := by
  cases h with
  | joined challengeId kind unused taken =>
      exact (Hub.peers_of_join? taken r).trans (if_neg fun hr => hRoom (congrArg some hr.symm))
  | left member =>
      exact (Hub.peers_beginLeave member r).trans (if_neg fun hr => hRoom (congrArg some hr.symm))
  | tidied room => exact Hub.peers_endLeave hRooms room r
  | forwarded => exact Hub.peers_congr (Hub.rooms_forward ..) r
  | delivered device received =>
      obtain ⟨rest, -, rfl⟩ := Hub.receive?_eq_some received
      rfl
  | _ => rfl

/-- A peer is told of an action exactly if it changes who is in the peer's room. -/
theorem announced?_of_mem (hw : w.Seated) (hp : p ∈ (w.step a).hub.peers r) :
    w.announced? p a = if (w.step a).hub.peers r = w.hub.peers r then none
      else some (Hub.announcement ((w.step a).hub.peers r).length) := by
  have hStep := step_step w a
  by_cases hRoom : a.seating? = some r
  · simp only [announced?, hRoom, Option.bind_some, hp, true_and, ne_eq, ite_not,
      Hub.announcement_eq hp]
  · have hQuiet : w.announced? p a = none := by
      rw [announced?]
      cases hOther : a.seating? with
      | none => rfl
      | some room =>
          refine if_neg fun h => hRoom (hOther.trans (congrArg some ?_))
          obtain ⟨d, hDevice, rfl⟩ := (hw.step hStep).device room p h.1
          obtain ⟨e, hDevice', rfl⟩ := (hw.step hStep).device r p hp
          rw [Option.some.inj (hDevice.symm.trans hDevice')]
    rw [hQuiet, if_pos (hStep.peers_of_seating hw.rooms hRoom)]

/-- What is announced is an event. -/
theorem textStageEvent?_of_announced {e : Event} (h : w.announced? p a = some e) :
    textStageEvent? e.text = some e := by
  simp only [announced?, Option.bind_eq_some_iff, Option.ite_none_right_eq_some] at h
  obtain ⟨room, -, hPeer, h⟩ := h
  rw [← Option.some.inj h, ← Hub.announcement_eq hPeer.1, textStageEvent?_announcement]

theorem textStageEvent?_of_forwarded {text : String} (hPlain : a.IsPlain)
    (h : w.forwarded? p a = some text) : textStageEvent? text = none := by
  cases a with
  | forward room sender sent =>
      simp only [forwarded?, Option.ite_none_right_eq_some, Option.some.injEq] at h
      exact textStageEvent?_of_plain (h.2 ▸ hPlain)
  | _ => cases h

/-- If nobody forwards stage events, those that come for a peer are what it is told. -/
theorem stageEvent?_of_arrival (hPlain : a.IsPlain) :
    (w.arrival? p a).bind textStageEvent? = w.announced? p a := by
  cases hTold : w.announced? p a with
  | some e => simp [arrival?, hTold, textStageEvent?_of_announced hTold]
  | none =>
      rw [arrival?, hTold, Option.map_none, Option.none_or, Option.bind_eq_none_iff]
      exact fun text hText => textStageEvent?_of_forwarded hPlain hText

/-- A device is told by what is announced to it, if its queue takes it. -/
theorem told?_step (hw : w.Seated) (hPlain : a.IsPlain) (p : PeerId) :
    (w.step a).told? p =
      if w.accepts p then (w.announced? p a).or (w.told? p) else w.told? p := by
  rw [told?, told?, traffic_step hw, List.filterMap_append, List.getLast?_append, kept,
    ← stageEvent?_of_arrival hPlain]
  split
  · cases w.arrival? p a with
    | none => rfl
    | some text => cases hEvent : textStageEvent? text <;> simp [hEvent]
  · rfl

/-- What a peer in a room was told last is how many peers there were at some time, and this is still
so exactly if it has missed an even number of announcements since. -/
structure Informed (w : World) (p : PeerId) (n : Nat) : Prop where
  seated : w.Seated
  told : ∀ r, p ∈ w.hub.peers r → ∃ count, 0 < count ∧ count ≤ roomCapacity ∧
    w.told? p = some (Hub.announcement count) ∧ (count = (w.hub.peers r).length ↔ Even n)

theorem informed_initial (p : PeerId) (n : Nat) : initial.Informed p n :=
  ⟨seated_initial, by simp [initial, Hub.peers, Hub.room?]⟩

/-- What is missing after an action is what could not be taken. -/
theorem Informed.step (hw : w.Informed p n) (hPlain : a.IsPlain) :
    (w.step a).Informed p (w.missing p n a) := by
  have hStep := step_step w a
  have hSeated := hw.seated.step hStep
  refine ⟨hSeated, fun r hp => ?_⟩
  have hSome : 0 < ((w.step a).hub.peers r).length := List.length_pos_of_mem hp
  have hFew := hSeated.few r
  have hTold := told?_step hw.seated hPlain p
  have hAnnounced := announced?_of_mem hw.seated hp
  by_cases hSame : (w.step a).hub.peers r = w.hub.peers r
  · -- Nothing has changed in the room, so the peer is not told anything.
    obtain ⟨count, hCount⟩ := hw.told r (hSame ▸ hp)
    rw [if_pos hSame] at hAnnounced
    rw [hAnnounced, Option.none_or, ite_self] at hTold
    refine ⟨count, ?_⟩
    rwa [hTold, hSame, missing, if_pos hAnnounced]
  · rw [if_neg hSame] at hAnnounced
    rw [missing, hAnnounced, if_neg (Option.some_ne_none _)]
    rw [hAnnounced, Option.some_or] at hTold
    by_cases hKept : w.accepts p
    · rw [if_pos hKept] at hTold ⊢
      exact ⟨_, hSome, hFew, hTold, by simp⟩
    · -- The peer keeps to what it was told before, while the number of peers has changed.
      rw [if_neg hKept] at hTold ⊢
      have hMember : p ∈ w.hub.peers r := by
        refine ((hStep.reseated hw.seated.rooms r).mem_or_new hp).resolve_right fun hNew => hKept ?_
        simp [accepts, hNew]
      obtain ⟨count, hPos, hMost, hBefore, hCount⟩ := hw.told r hMember
      have hOther := (hStep.reseated hw.seated.rooms r).length_ne hSame
      have hOld : 0 < (w.hub.peers r).length := List.length_pos_of_mem hMember
      have hOldFew := hw.seated.few r
      refine ⟨count, hPos, hMost, hTold.trans hBefore, ?_⟩
      rw [Nat.even_add_one, ← hCount]
      rw [roomCapacity] at *
      omega

/-- So a device is as many announcements behind as it has missed. -/
theorem Informed.run {actions : List Action} {w : World} {n : Nat} (hw : w.Informed p n)
    (hPlain : ∀ a ∈ actions, a.IsPlain) : (w.run actions).Informed p (missed p n w actions) := by
  induction actions generalizing w n with
  | nil => exact hw
  | cons a actions ih =>
      obtain ⟨hFirst, hRest⟩ := List.forall_mem_cons.mp hPlain
      exact ih (hw.step hFirst) hRest

/-- What a peer is told tells one peer from two. -/
theorem announcement_eq_iff {count count' : Nat} (hPos : 0 < count) (hPos' : 0 < count')
    (hFew : count ≤ roomCapacity) (hFew' : count' ≤ roomCapacity) :
    Hub.announcement count = Hub.announcement count' ↔ count = count' := by
  refine ⟨fun hSame => ?_, congrArg _⟩
  have hReady : roomCapacity ≤ count ↔ roomCapacity ≤ count' := by
    rw [← announcement_eq_ready_iff, hSame, announcement_eq_ready_iff]
  rw [roomCapacity] at *
  omega

/-- When a peer has read all that has come for it, the announcement that it has heard last tells
whether it is alone in its room exactly if the announcements lost on it since are even in number. So a
session that has not responded is then ready, or not, as the other peer is there, or not. -/
theorem last_announcement_iff {actions : List Action} (hPlain : ∀ a ∈ actions, a.IsPlain)
    (hMember : p ∈ (initial.run actions).hub.peers r)
    (hDevice : (initial.run actions).devices p = some d)
    (hRead : ((initial.run actions).hub.queues p).texts = []) :
    let present := ((initial.run actions).hub.peers r).length
    let lost := missed p 0 initial actions
    ((stageEvents d.calls).getLast? = some (if present = 1 then .waiting else .ready) ↔ Even lost) ∧
    (d.session.stage ≠ .responded → ((d.session.stage = .ready ↔ present = 2) ↔ Even lost)) := by
  intro present lost
  obtain ⟨hSeated, hTold⟩ := (informed_initial p 0).run hPlain
  obtain ⟨count, hPos, hMost, hLast, hCount⟩ := hTold r hMember
  have hPresent : 0 < present := List.length_pos_of_mem hMember
  have hFew : present ≤ roomCapacity := hSeated.few r
  have hEvents : (stageEvents d.calls).getLast? = some (Hub.announcement count) := by
    rw [← hLast, told?, traffic_of_device hDevice, hRead, List.append_nil, stageEvents_eq]
    rfl
  refine ⟨?_, fun hStage => ?_⟩
  · rw [hEvents, ← Hub.announcement_eq hMember, Option.some.injEq,
      announcement_eq_iff hPos hPresent hMost hFew]
    exact hCount
  · rw [d.recorded.stage hStage, stageOfLast_eq_ready_iff, hEvents, Option.some.injEq, ← hCount]
    rw [announcement_eq_ready_iff]
    rw [roomCapacity] at *
    omega

/-- A peer sends so much that the queue of the other one is full, and leaves before that one reads
anything. -/
def crowded : List Action :=
  [.join "room" 0 "room" .get, .join "room" 1 "room" .get, .deliver 0, .deliver 0] ++
    List.replicate queueCapacity (.forward "room" 1 "\x7b\x7d") ++
    .leave "room" 1 :: List.replicate queueCapacity (.deliver 0)

/-- Nobody forges an event in this run. -/
theorem isPlain_crowded : ∀ a ∈ crowded, a.IsPlain := by
  have hText : ∀ e, Frame.ofText "\x7b\x7d" ≠ .ok (.event e) := fun e h => by cases h
  simp only [crowded, List.forall_mem_append, List.forall_mem_cons, List.forall_mem_replicate]
  simp [Action.IsPlain, hText]

/-- The peer that is left behind has read all, and still takes the other one to be there. -/
theorem left_behind_unaware :
    (initial.run crowded).hub.peers "room" = [0] ∧
      ((initial.run crowded).hub.queues 0).texts = [] ∧
      ∃ d, (initial.run crowded).devices 0 = some d ∧
        (stageEvents d.calls).getLast? ≠ some .waiting ∧ d.session.stage = .ready := by
  have hPeers : (initial.run crowded).hub.peers "room" = [0] := by decide +kernel
  have hRead : ((initial.run crowded).hub.queues 0).texts = [] := by decide +kernel
  have hLost : missed 0 0 initial crowded = 1 := by decide +kernel
  have hUnused : ((initial.run crowded).devices 0).any (·.session.stage ≠ .responded) := by
    decide +kernel
  have hMember : 0 ∈ (initial.run crowded).hub.peers "room" := by simp [hPeers]
  obtain ⟨d, hDevice, hStage⟩ := Option.any_eq_true .. |>.mp hUnused
  obtain ⟨hLast, hReady⟩ := last_announcement_iff isPlain_crowded hMember hDevice hRead
  rw [hPeers, hLost] at hLast hReady
  refine ⟨hPeers, hRead, d, hDevice, fun hWaiting => ?_, ?_⟩
  · exact Nat.not_even_one (hLast.mp hWaiting)
  · by_contra hNotReady
    have hAlone : [0].length ≠ 2 := by decide
    exact Nat.not_even_one ((hReady (of_decide_eq_true hStage)).mp (iff_of_false hNotReady hAlone))

end World

end RemoteSigning.Relay
