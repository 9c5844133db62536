import RemoteSigning.Proofs.Relay.Roles

/-!
# Meetings

Two devices meet in an empty room and stay. Whatever else goes on at the relay, the first of them
hears `waiting`, then `ready`, and then what the second one's session has sent over the relay, and
nothing else.
-/

namespace RemoteSigning.Relay

open Ceremony Session

variable {w w' : World} {x : Action} {room : String} {a b p : PeerId} {kind : Kind} {d e : Device}
  {others : List PeerId} {texts : List String}

namespace World

/-- Whether all actions of a run satisfy a rule, each in the world that it finds. -/
def Follows (rule : World → Action → Prop) (w : World) : List Action → Prop
  | [] => True
  | x :: rest => rule w x ∧ Follows rule (w.step x) rest

/-- A rule is followed by actions that follow it one part after the other. -/
theorem follows_append {rule : World → Action → Prop} {first rest : List Action} :
    w.Follows rule (first ++ rest) ↔
      w.Follows rule first ∧ (w.run first).Follows rule rest := by
  induction first generalizing w with
  | nil => simp [Follows]
  | cons x first ih => simp [Follows, ih, and_assoc]

/-- What may happen while `a` and `b` meet in a room: nobody but `b` is seated there; both stay, and
`a` keeps reading; and they send each other only what their sessions have sent over the relay. All
else is free, also in other rooms. -/
def Undisturbed (room : String) (a b : PeerId) (w : World) : Action → Prop
  | .join r p _ _ =>
    (r = room → roomCapacity ≤ (w.hub.peers room).length ∨ p = b) ∧ (p = b → r = room)
  | .leave _ p => p ≠ a ∧ p ≠ b
  | .abandon p => p ≠ a
  | .forward _ p text =>
    p = a ∨ p = b →
      ∃ d, w.devices p = some d ∧ ∃ m ∈ d.relayed, text = (Frame.credential m).toText
  | _ => True

/-- How things stand with the first device of a room: who has come after it, and what has come for
it. -/
structure Hosted (w : World) (room : String) (a : PeerId) (kind : Kind) (others : List PeerId)
    (texts : List String) (d : Device) : Prop where
  announced : w.Announced
  peers : w.hub.peers room = a :: others
  device : w.devices a = some d
  kind : d.kind = kind
  reads : (w.hub.queues a).abandoned = false
  texts : d.traffic (w.hub.queues a) = texts

/-- Nobody is in two rooms. -/
theorem Seated.not_mem_of_ne {r : String} (hw : w.Seated) (hp : p ∈ w.hub.peers room)
    (hr : r ≠ room) : p ∉ w.hub.peers r := by
  intro hOther
  obtain ⟨d, hd, hRoom⟩ := hw.device room p hp
  obtain ⟨e, he, hRoom'⟩ := hw.device r p hOther
  obtain rfl : d = e := Option.some.inj (hd.symm.trans he)
  exact hr (hRoom'.symm.trans hRoom)

/-- An action that neither comes for the device nor changes who shares its room. -/
theorem Hosted.same (h : w.Hosted room a kind others texts d) (hStep : Step w x w')
    (hPeers : w'.hub.peers room = w.hub.peers room) (hDevice : w'.devices a = some d)
    (hQueue : w'.hub.queues a = w.hub.queues a) : w'.Hosted room a kind others texts d :=
  ⟨h.announced.step hStep, hPeers.trans h.peers, hDevice, h.kind, hQueue ▸ h.reads,
    hQueue ▸ h.texts⟩

/-- No more waits for the host than has come. -/
theorem Hosted.length_queue_le (h : w.Hosted room a kind others texts d) :
    (w.hub.queues a).texts.length ≤ texts.length := by
  rw [← h.texts, Device.traffic, List.length_append]
  omega

/-- A text that finds space in the queue of the device comes last in what has come for it. -/
theorem Hosted.arrived {others' : List PeerId} {text : String}
    (h : w.Hosted room a kind others texts d) (hStep : Step w x w')
    (hPeers : w'.hub.peers room = a :: others') (hDevice : w'.devices a = some d)
    (hQueue : w'.hub.queues a = (w.hub.queues a).deliver text)
    (hSpace : (w.hub.queues a).texts.length < queueCapacity) :
    w'.Hosted room a kind others' (texts ++ [text]) d := by
  rw [Queue.deliver_of_lt h.reads hSpace] at hQueue
  refine ⟨h.announced.step hStep, hPeers, hDevice, h.kind, by rw [hQueue]; exact h.reads, ?_⟩
  rw [hQueue, ← h.texts, Device.traffic, Device.traffic, List.append_assoc]

/-- What an undisturbed action does for the first device of a room: nothing, as when a text is lost
because too many are waiting already; or the second one comes; or a text of the second one arrives. -/
inductive Heard (w w' : World) (room : String) (a b : PeerId) (kind : Kind)
    (others : List PeerId) (texts : List String) : Prop where
  | nothing {d : Device} (hosted : w'.Hosted room a kind others texts d)
  | joined {d e : Device} (hosted : w'.Hosted room a kind [b] (texts ++ [Event.ready.text]) d)
      (alone : others = []) (device : w'.devices b = some e) (fresh : e.calls = [])
  | sent {d e : Device} {m : CredentialMessage} (device : w.devices b = some e)
      (relayed : m ∈ e.relayed) (same : w'.devices = w.devices)
      (hosted : w'.Hosted room a kind others (texts ++ [(Frame.credential m).toText]) d)

section Actions

variable (h : w.Hosted room a kind others texts d)

include h

theorem Hosted.mem : a ∈ w.hub.peers room := by simp [h.peers]

theorem Hosted.not_mem {r : String} (hr : r ≠ room) : a ∉ w.hub.peers r :=
  h.announced.seated.not_mem_of_ne h.mem hr

/-- Nobody but the two devices is in the room. -/
theorem Hosted.eq_or_eq (hOthers : ∀ p ∈ others, p = b) (hp : p ∈ w.hub.peers room) :
    p = a ∨ p = b := by
  rw [h.peers, List.mem_cons] at hp
  exact hp.imp_right (hOthers p)

/-- Whoever joins, the host hears of it if it is in its room. -/
theorem Hosted.joined {r challengeId : String} {k : Kind} {hub : Hub}
    (hSpace : others = [] → texts.length < queueCapacity)
    (hAllowed : w.Undisturbed room a b (.join r p challengeId k)) (unused : w.devices p = none)
    (taken : w.hub.join? r p = some hub) :
    Heard w ({ w with hub }.setDevice p
      { room := r, found := (w.hub.peers r).length, challengeId, kind := k }) room a b kind others
      texts := by
  have hSeated := h.announced.seated
  have hStep : Step w (.join r p challengeId k) _ := .joined challengeId k unused taken
  have hOther : a ≠ p := by
    rintro rfl
    simp [h.device] at unused
  have hNew : p ∉ w.hub.peers r := fun hp => by simpa [unused] using hSeated.member r p hp
  have hQueue := Hub.queues_of_join? taken (hSeated.distinct r) hNew a
  rw [if_neg hOther] at hQueue
  have hPeers := Hub.peers_of_join? taken room
  by_cases hr : r = room
  · subst hr
    obtain ⟨hFree, -⟩ := Hub.join?_eq_some taken
    obtain rfl : p = b := (hAllowed.1 rfl).resolve_left (Nat.not_le.mpr hFree)
    obtain rfl : others = [] := by
      rw [h.peers, roomCapacity, List.length_cons] at hFree
      exact List.length_eq_zero_iff.mp (by omega)
    rw [if_pos h.mem, h.peers] at hQueue
    rw [if_pos rfl, h.peers, List.singleton_append] at hPeers
    have hFew := Nat.lt_of_le_of_lt h.length_queue_le (hSpace rfl)
    exact .joined (h.arrived hStep hPeers ((if_neg hOther).trans h.device) hQueue hFew) rfl
      (if_pos rfl) rfl
  · rw [if_neg (h.not_mem hr)] at hQueue
    rw [if_neg (Ne.symm hr)] at hPeers
    exact .nothing (h.same hStep hPeers ((if_neg hOther).trans h.device) hQueue)

/-- The same of whoever leaves. -/
theorem Hosted.left {r : String} (hOthers : ∀ p ∈ others, p = b)
    (hAllowed : w.Undisturbed room a b (.leave r p)) (member : p ∈ w.hub.peers r) :
    Heard w { w with hub := (w.hub.beginLeave r p).2 } room a b kind others texts := by
  have hr : r ≠ room := by
    rintro rfl
    exact (h.eq_or_eq hOthers member).elim hAllowed.1 hAllowed.2
  have hQueue := Hub.queues_beginLeave member (h.announced.seated.distinct r) a
  rw [if_neg (Ne.symm hAllowed.1), if_neg (h.not_mem hr)] at hQueue
  have hPeers := Hub.peers_beginLeave member room
  rw [if_neg (Ne.symm hr)] at hPeers
  exact .nothing (h.same (.left member) hPeers h.device hQueue)

/-- A text that is sent in the room comes from the session of the second device. -/
theorem Hosted.forwarded {r text : String} (hOthers : ∀ p ∈ others, p = b)
    (hAllowed : w.Undisturbed room a b (.forward r p text)) (member : p ∈ w.hub.peers r) :
    Heard w { w with hub := w.hub.forward r p text } room a b kind others texts := by
  have hStep : Step w (.forward r p text) _ := .forwarded text member
  have hPeers := Hub.peers_congr (Hub.rooms_forward w.hub r p text) room
  have hQueue := Hub.queues_forward (h.announced.seated.distinct r) p text a
  by_cases hFor : a ∈ w.hub.peers r ∧ a ≠ p
  · obtain ⟨hMember, hOther⟩ := hFor
    obtain rfl : r = room := by
      by_contra hr
      exact h.not_mem hr hMember
    obtain rfl : p = b := (h.eq_or_eq hOthers member).resolve_left (Ne.symm hOther)
    obtain ⟨e, hDevice, m, hRelayed, rfl⟩ := hAllowed (.inr rfl)
    rw [if_pos ⟨hMember, hOther⟩] at hQueue
    by_cases hSpace : (w.hub.queues a).texts.length < queueCapacity
    · exact .sent hDevice hRelayed rfl
        (h.arrived hStep (hPeers.trans h.peers) h.device hQueue hSpace)
    · rw [Queue.deliver, if_pos (.inr (Nat.not_lt.mp hSpace))] at hQueue
      exact .nothing (h.same hStep hPeers h.device hQueue)
  · rw [if_neg hFor] at hQueue
    exact .nothing (h.same hStep hPeers h.device hQueue)

/-- Reading a text tells the host nothing new. -/
theorem Hosted.delivered {text : String} {hub : Hub} (device : w.devices p = some e)
    (received : w.hub.receive? p = some (text, hub)) :
    Heard w ({ w with hub }.setDevice p (e.made (.handle text))) room a b kind others texts := by
  have hStep : Step w (.deliver p) _ := .delivered device received
  obtain ⟨rest, hTexts, rfl⟩ := Hub.receive?_eq_some received
  by_cases hp : a = p
  · subst hp
    obtain rfl : d = e := Option.some.inj (h.device.symm.trans device)
    refine .nothing (d := d.made (.handle text)) ⟨h.announced.step hStep, h.peers, if_pos rfl,
      h.kind, by simpa [Hub.queues_updateQueue] using h.reads, ?_⟩
    rw [← h.texts]
    simp [Device.traffic, Hub.queues_updateQueue, hTexts, Call.text?]
  · exact .nothing (h.same hStep rfl ((if_neg hp).trans h.device) (if_neg hp))

/-- Nor does a call of a device on its own. -/
theorem Hosted.called {c : Call} (device : w.devices p = some e) (own : c.text? = none) :
    Heard w (w.setDevice p (e.made c)) room a b kind others texts := by
  have hStep : Step w (.call p c) _ := .called device own
  by_cases hp : a = p
  · subst hp
    obtain rfl : d = e := Option.some.inj (h.device.symm.trans device)
    refine .nothing (d := d.made c) ⟨h.announced.step hStep, h.peers, if_pos rfl, h.kind, h.reads, ?_⟩
    rw [← h.texts]
    simp [Device.traffic, own]
  · exact .nothing (h.same hStep rfl ((if_neg hp).trans h.device) rfl)

/-- Every undisturbed action is one of the three. -/
theorem Hosted.step (hOthers : ∀ p ∈ others, p = b)
    (hSpace : others = [] → texts.length < queueCapacity) (hAllowed : w.Undisturbed room a b x)
    (hStep : Step w x w') : Heard w w' room a b kind others texts := by
  cases hStep with
  | idle => exact .nothing h
  | joined challengeId k unused taken => exact h.joined hSpace hAllowed unused taken
  | left member => exact h.left hOthers hAllowed member
  | tidied r =>
      have hPeers := Hub.peers_endLeave h.announced.seated.rooms r room
      exact .nothing (h.same (.tidied r) hPeers h.device rfl)
  | forwarded text member => exact h.forwarded hOthers hAllowed member
  | abandoned p => exact .nothing (h.same (.abandoned p) rfl h.device (if_neg (Ne.symm hAllowed)))
  | delivered device received => exact h.delivered device received
  | called device own => exact h.called device own

end Actions

/-- The texts that have come for the first device after the second one has: each message that the
second one's session has sent, so many times. -/
def meetingTexts (sent : List CredentialMessage) (k : Nat) : List String :=
  Event.waiting.text :: Event.ready.text ::
    sent.flatMap fun m => List.replicate k (Frame.credential m).toText

theorem meetingTexts_nil (k : Nat) : meetingTexts [] k = [Event.waiting.text, Event.ready.text] :=
  rfl

theorem meetingTexts_zero (sent : List CredentialMessage) :
    meetingTexts sent 0 = [Event.waiting.text, Event.ready.text] := by
  simp [meetingTexts]

/-- Each credential that is forwarded is one more text. -/
theorem meetingTexts_succ (m : CredentialMessage) (k : Nat) :
    meetingTexts [m] (k + 1) = meetingTexts [m] k ++ [(Frame.credential m).toText] := by
  simp [meetingTexts, List.replicate_succ']

theorem length_meetingTexts (m : CredentialMessage) (k : Nat) :
    (meetingTexts [m] k).length = k + 2 := by
  simp [meetingTexts]

/-- The first device of a room alone, or together with the second one, whose session has sent some
messages over the relay that have arrived so many times. -/
inductive Meeting (w : World) (room : String) (a b : PeerId) (kind : Kind) :
    List CredentialMessage → Nat → Prop where
  | alone {d : Device} (hosted : w.Hosted room a kind [] [Event.waiting.text] d)
      (unused : w.devices b = none) : Meeting w room a b kind [] 0
  | paired {d e : Device} (k : Nat)
      (hosted : w.Hosted room a kind [b] (meetingTexts e.relayed k) d)
      (device : w.devices b = some e) : Meeting w room a b kind e.relayed k

section Meetings

variable {sent : List CredentialMessage} {k : Nat} (h : w.Meeting room a b kind sent k)

include h

/-- In a meeting, all devices have been told what they found. -/
theorem Meeting.announced : w.Announced := by
  cases h with
  | alone hosted => exact hosted.announced
  | paired k hosted => exact hosted.announced

theorem Meeting.device : ∃ d, w.devices a = some d := by
  cases h with
  | alone hosted => exact ⟨_, hosted.device⟩
  | paired k hosted => exact ⟨_, hosted.device⟩

/-- What was sent in a meeting is what the second device has relayed. -/
theorem Meeting.sent_eq (hDevice : w.devices b = some e) : sent = e.relayed := by
  cases h with
  | alone _ unused => cases unused.symm.trans hDevice
  | paired k _ device => rw [Option.some.inj (device.symm.trans hDevice)]

end Meetings

/-- The first device arrives in a room without peers. -/
theorem meeting_join (hw : w.Announced) (hEmpty : w.hub.peers room = []) (hNe : a ≠ b)
    (hNew : w.devices a = none) (hNew' : w.devices b = none) (challengeId : String) (kind : Kind) :
    (w.step (.join room a challengeId kind)).Meeting room a b kind [] 0 := by
  obtain ⟨hub, taken⟩ : ∃ hub, w.hub.join? room a = some hub := by
    refine Option.ne_none_iff_exists'.mp fun hNone => ?_
    rw [Hub.join?_eq_none, hEmpty] at hNone
    cases hNone
  have hStep : w.step (.join room a challengeId kind) = { w with hub }.setDevice a
      { room, found := (w.hub.peers room).length, challengeId, kind } := by
    simp [step, hNew, taken]
  have hPeers := Hub.peers_of_join? taken room
  rw [if_pos rfl, hEmpty, List.nil_append] at hPeers
  have hQueue := Hub.queues_of_join? taken (by simp [hEmpty]) (by simp [hEmpty]) a
  rw [if_pos rfl, hEmpty] at hQueue
  have hAnnounced := hw.step (step_step w (.join room a challengeId kind))
  rw [hStep] at hAnnounced ⊢
  refine .alone ⟨hAnnounced, hPeers, if_pos rfl, rfl, ?_, ?_⟩ ((if_neg hNe.symm).trans hNew')
  · rw [hub_setDevice, hQueue]
  · rw [hub_setDevice, hQueue]
    rfl

/-- Whatever happens while the first device is alone, nothing has been sent yet. -/
theorem Hosted.step_alone (hosted : w.Hosted room a kind [] [Event.waiting.text] d)
    (unused : w.devices b = none) (hAllowed : w.Undisturbed room a b x) (hStep : Step w x w') :
    w'.Meeting room a b kind [] 0 := by
  have hSpace : [Event.waiting.text].length < queueCapacity := by
    rw [queueCapacity, List.length_singleton]
    omega
  cases hosted.step (List.forall_mem_nil _) (fun _ => hSpace) hAllowed hStep with
  | nothing hosted' =>
      refine .alone hosted' (Option.eq_none_iff_forall_ne_some.mpr fun e hDevice => ?_)
      -- The second device comes to this room only, and then it is there.
      obtain ⟨rfl, taken, -, -⟩ := hStep.joined_of_none unused hDevice
      have hPeers := Hub.peers_of_join? taken room
      rw [if_pos (hAllowed.2 rfl).symm, hosted'.peers, hAllowed.2 rfl, hosted.peers] at hPeers
      cases hPeers
  | @joined d' e hosted' _ device fresh =>
      have hRelayed : e.relayed = [] := by simp [Device.relayed, Device.answers, fresh]
      have hPaired : w'.Meeting room a b kind e.relayed 0 := by
        refine .paired (d := d') 0 ?_ device
        rw [meetingTexts_zero]
        exact hosted'
      rwa [hRelayed] at hPaired
  | sent device => cases unused.symm.trans device

/-- While both are there, a message that has been sent stays the only one, and can arrive again. -/
theorem Hosted.step_paired {k : Nat}
    (hosted : w.Hosted room a kind [b] (meetingTexts e.relayed k) d) (device : w.devices b = some e)
    (hAllowed : w.Undisturbed room a b x) (hStep : Step w x w') :
    ∃ sent k', w'.Meeting room a b kind sent k' ∧ (e.relayed ≠ [] → sent = e.relayed ∧ k ≤ k') := by
  have hSeated := hosted.announced.seated
  obtain ⟨e', -, hDevice, hContinues, -⟩ := hStep.grows hSeated.distinct hSeated.member device
  cases hosted.step (fun p hp => List.mem_singleton.mp hp) (fun h => by cases h) hAllowed hStep with
  | @nothing d' hosted' =>
      by_cases hNone : e.relayed = []
      · refine ⟨e'.relayed, 0, .paired (d := d') 0 ?_ hDevice, fun h => absurd hNone h⟩
        rw [hNone, meetingTexts_nil] at hosted'
        rwa [meetingTexts_zero]
      · have hSame := hContinues.relayed_eq hNone
        rw [← hSame] at hosted'
        exact ⟨e'.relayed, k, .paired k hosted' hDevice, fun _ => ⟨hSame, Nat.le_refl k⟩⟩
  | joined hosted' alone => cases alone
  | @sent d' f m device' relayed same hosted' =>
      obtain rfl : e = f := Option.some.inj (device.symm.trans device')
      obtain rfl : e = e' := Option.some.inj (device.symm.trans (same ▸ hDevice))
      have hOne : e.relayed = [m] := Device.relayed_eq_of_mem relayed
      refine ⟨e.relayed, k + 1, .paired (d := d') (k + 1) ?_ hDevice, fun _ => ?_⟩
      · rw [hOne, meetingTexts_succ, ← hOne]
        exact hosted'
      · exact ⟨rfl, Nat.le_succ k⟩

/-- What the second device has sent stays the one message there is, and arrives no fewer times. -/
theorem Meeting.step {sent : List CredentialMessage} {k : Nat}
    (h : w.Meeting room a b kind sent k) (hAllowed : w.Undisturbed room a b x)
    (hStep : Step w x w') :
    ∃ sent' k', w'.Meeting room a b kind sent' k' ∧ (sent ≠ [] → sent' = sent ∧ k ≤ k') := by
  cases h with
  | alone hosted unused =>
      exact ⟨[], 0, hosted.step_alone unused hAllowed hStep, fun h => absurd rfl h⟩
  | paired k hosted device => exact hosted.step_paired device hAllowed hStep

/-- By induction on the actions: a meeting that nobody disturbs goes on, and no second credential is
sent. -/
theorem Meeting.run {actions : List Action} {w : World}
    {sent : List CredentialMessage} {k : Nat} (h : w.Meeting room a b kind sent k)
    (hAllowed : w.Follows (Undisturbed room a b) actions) :
    ∃ sent' k', (w.run actions).Meeting room a b kind sent' k' ∧
      (sent ≠ [] → sent' = sent ∧ k ≤ k') := by
  induction actions generalizing w sent k with
  | nil => exact ⟨sent, k, h, fun _ => ⟨rfl, Nat.le_refl k⟩⟩
  | cons x actions ih =>
      obtain ⟨sent', k', hStep, hKept⟩ := h.step hAllowed.1 (step_step w x)
      obtain ⟨sent'', k'', hRun, hKept'⟩ := ih hStep hAllowed.2
      refine ⟨sent'', k'', hRun, fun hSent => ?_⟩
      obtain ⟨rfl, hLe⟩ := hKept hSent
      obtain ⟨rfl, hLe'⟩ := hKept' hSent
      exact ⟨rfl, Nat.le_trans hLe hLe'⟩

/-- Sending what the second device's session has sent makes sure that it has arrived: if there is no
space in the queue, it has come before. -/
theorem Meeting.forwarded {m : CredentialMessage} {k : Nat}
    (h : w.Meeting room a b kind [m] k) (hNe : a ≠ b) :
    ∃ k', 0 < k' ∧
      (w.step (.forward room b (Frame.credential m).toText)).Meeting room a b kind [m] k' := by
  generalize hSent : [m] = sent at h ⊢
  cases h with
  | alone => cases hSent
  | @paired d e k hosted device =>
      have hMember : b ∈ w.hub.peers room := by simp [hosted.peers]
      have hStep := step_step w (.forward room b (Frame.credential m).toText)
      rw [World.step, if_pos hMember] at hStep ⊢
      have hPeers := Hub.peers_congr
        (Hub.rooms_forward w.hub room b (Frame.credential m).toText) room
      have hQueue := Hub.queues_forward (hosted.announced.seated.distinct room) b
        (Frame.credential m).toText a
      rw [if_pos ⟨hosted.mem, hNe⟩] at hQueue
      by_cases hSpace : (w.hub.queues a).texts.length < queueCapacity
      · refine ⟨k + 1, Nat.succ_pos k, .paired (d := d) (k + 1) ?_ device⟩
        rw [← hSent, meetingTexts_succ, hSent]
        exact hosted.arrived hStep (hPeers.trans hosted.peers) hosted.device hQueue hSpace
      · rw [Queue.deliver, if_pos (.inr (Nat.not_lt.mp hSpace))] at hQueue
        refine ⟨k, ?_, .paired k (hosted.same hStep hPeers hosted.device hQueue) device⟩
        have hMany := hosted.length_queue_le
        rw [← hSent, length_meetingTexts] at hMany
        rw [queueCapacity] at hSpace
        omega

/-- So a run that sends it at some time makes it arrive. -/
theorem Meeting.run_forward {m : CredentialMessage} {k : Nat} {actions : List Action}
    (h : w.Meeting room a b kind [m] k) (hNe : a ≠ b)
    (hAllowed : w.Follows (Undisturbed room a b) actions)
    (hForward : .forward room b (Frame.credential m).toText ∈ actions) :
    ∃ k', 0 < k' ∧ (w.run actions).Meeting room a b kind [m] k' := by
  obtain ⟨first, rest, rfl⟩ := List.append_of_mem hForward
  obtain ⟨hFirst, -, hRest⟩ := follows_append.mp hAllowed
  have hSent : [m] ≠ [] := List.cons_ne_nil m []
  obtain ⟨sent₁, k₁, hMeeting₁, hKept₁⟩ := h.run hFirst
  obtain ⟨rfl, -⟩ := hKept₁ hSent
  obtain ⟨k₂, hPos, hMeeting₂⟩ := hMeeting₁.forwarded hNe
  obtain ⟨sent₃, k₃, hMeeting₃, hKept₃⟩ := hMeeting₂.run hRest
  obtain ⟨rfl, hLe⟩ := hKept₃ hSent
  refine ⟨k₃, Nat.lt_of_lt_of_le hPos hLe, ?_⟩
  rw [run_append, run_cons]
  exact hMeeting₃

end World

end RemoteSigning.Relay
