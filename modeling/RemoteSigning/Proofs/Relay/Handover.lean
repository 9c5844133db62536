import RemoteSigning.Proofs.Relay.Meetings
import RemoteSigning.Proofs.Session.Hosts

/-!
# Handing over a credential

Two devices meet in an empty room. If the session of the second one sends a credential over the relay,
the session of the first one passes on that credential, once, and has announced its peer once before.
If it does not send it, because it has not been told yet that both are there, its device keeps it.
-/

namespace RemoteSigning.Relay

open Ceremony Session

variable {w : World} {room : String} {a b p : PeerId} {kind : Kind} {d e : Device}
  {others : List PeerId} {m : CredentialMessage} {c : Credential} {k : Nat}

namespace World

theorem meetingTexts_singleton (m : CredentialMessage) (k : Nat) :
    meetingTexts [m] k = hostTexts m k := by
  simp [meetingTexts, hostTexts]

/-- The device that hosts a room has handled the texts that a host gets, up to where it is. -/
theorem Hosted.hosting (h : w.Hosted room a kind others (hostTexts m k) d)
    (hCredential : 0 < k → m.Travels ∧ m.decode kind = .ok c) :
    Hosting c d.handled.length d.session d.answers := by
  obtain rfl : d.kind = kind := h.kind
  exact hosting_after d.challengeId d.calls hCredential ⟨(w.hub.queues a).texts, h.texts⟩

/-- The first device passes on no more than the second one has sent. -/
theorem Meeting.length_received_le {sent : List CredentialMessage}
    (h : w.Meeting room a b kind sent k) (hDevice : w.devices a = some d)
    (hDevice' : w.devices b = some e) : d.received.length ≤ e.relayed.length := by
  cases h with
  | alone _ unused => cases unused.symm.trans hDevice'
  | @paired d' e' k hosted device =>
      obtain rfl : d' = d := Option.some.inj (hosted.device.symm.trans hDevice)
      obtain rfl : e' = e := Option.some.inj (device.symm.trans hDevice')
      by_cases hNone : e'.relayed = []
      · -- Nothing has come but the two events.
        let c := Credential.assertion { response := {} }
        have hosted' : w.Hosted room a kind [b] (hostTexts c.encode 0) d' := by
          rw [hNone, meetingTexts_nil] at hosted
          exact hosted
        have hHost : Hosting c d'.handled.length d'.session d'.answers :=
          hosted'.hosting fun h => absurd h (Nat.lt_irrefl 0)
        have hFew : d'.handled.length ≤ 2 := by
          have hTexts := congrArg List.length hosted'.texts
          rw [Device.traffic, List.length_append, hostTexts] at hTexts
          simp only [List.replicate_zero, List.length_cons, List.length_nil] at hTexts
          omega
        rw [Device.received, hHost.received_eq_nil hFew]
        exact Nat.zero_le _
      · exact Nat.le_trans d'.length_received_le (List.length_pos_iff.mpr hNone)

/-- Once a message of the second device has arrived and been read, the first one has passed on its
credential. -/
theorem Meeting.received_eq (h : w.Meeting room a b kind [m] k) (hPos : 0 < k)
    (hTravels : m.Travels) (hDecode : m.decode kind = .ok c) (hDevice : w.devices a = some d)
    (hRead : (w.hub.queues a).texts = []) :
    d.received = [c] ∧
      ∃ first rest, d.answers = first ++ .effect (some (.credentialReceived c)) :: rest ∧
        first.countP Answer.isPeerJoined = 1 := by
  generalize hSent : [m] = sent at h
  cases h with
  | alone => cases hSent
  | @paired d' e k hosted device =>
      obtain rfl : d' = d := Option.some.inj (hosted.device.symm.trans hDevice)
      rw [← hSent, meetingTexts_singleton] at hosted
      have hTexts := congrArg List.length hosted.texts
      rw [Device.traffic, hRead, List.append_nil, hostTexts] at hTexts
      simp only [List.length_cons, List.length_replicate] at hTexts
      exact (hosted.hosting fun _ => ⟨hTravels, hDecode⟩).received_eq (by omega)

/-- A device that is asked for a credential before it has been told that both are there keeps it. -/
theorem Announced.routeCeremony_direct (hw : w.Announced) (hDevice : w.devices p = some d)
    (hReady : Event.ready.text ∉ d.handled) (c : Credential) :
    d.session.run (routeCeremony (.ok c)) = (.ok (.direct c), d.session) := by
  cases hSends : d.session.sendsOverRelay with
  | false => simp [run_routeCeremony_ok, hSends]
  | true =>
      exfalso
      have hRoute : d.session.run (routeCeremony (.ok c)) =
          (.ok (.relay c.encode), { d.session with stage := .responded }) := by
        simp [run_routeCeremony_ok, hSends]
      obtain ⟨hScanner, -⟩ := relay_of_routeCeremony hRoute
      have hHandled : d.handled ≠ [] := by
        intro hNothing
        cases hScanner.symm.trans (Device.role_of_handled_nil hNothing)
      obtain ⟨rest, hFirst⟩ := hw.first p d hDevice
      rw [(hw.scanner_iff hDevice hHandled).mp hScanner] at hFirst
      obtain ⟨text, later, hTexts⟩ := List.exists_cons_of_ne_nil hHandled
      rw [Device.traffic, hTexts, List.cons_append, List.cons.injEq] at hFirst
      rw [hTexts, hFirst.1] at hReady
      exact hReady List.mem_cons_self

/-- Two devices meet in a room that was empty, and stay, and only what their sessions send over the
relay is sent between them. If the session of the second one sends a credential over the relay, then
once it has been sent and the first one has read all that has come for it, the session of the first
one has passed on exactly that credential, and has announced its peer exactly once before. If the
second one has not been told yet that both are there, it is handed the credential back. In any case
the first one passes on no more credentials than the second one has sent. -/
theorem hands_over_exactly_once {early before after : List Action} {challengeId text : String}
    {wire : CredentialMessage} {e₁ : Device} (hNe : a ≠ b)
    (hEmpty : (initial.run early).hub.peers room = [])
    (hNew : (initial.run early).devices a = none) (hNew' : (initial.run early).devices b = none)
    (hText : CredentialMessage.ofText text = .ok wire) (hIntegers : wire.HasIntegers)
    (hDecode : wire.decode kind = .ok c) :
    let w₀ := (initial.run early).step (.join room a challengeId kind)
    let w₁ := w₀.run before
    let w := (w₁.step (.call b (.route (.ok c)))).run after
    w₀.Follows (Undisturbed room a b) (before ++ .call b (.route (.ok c)) :: after) →
    w₁.devices b = some e₁ →
    ∃ d e, w.devices a = some d ∧ w.devices b = some e ∧
      (∀ m s, e₁.session.run (routeCeremony (.ok c)) = (.ok (.relay m), s) →
        .forward room b (Frame.credential m).toText ∈ after → (w.hub.queues a).texts = [] →
        d.received = [c] ∧
          ∃ first rest, d.answers = first ++ .effect (some (.credentialReceived c)) :: rest ∧
            first.countP Answer.isPeerJoined = 1) ∧
      (Event.ready.text ∉ e₁.handled →
        e₁.session.run (routeCeremony (.ok c)) = (.ok (.direct c), e₁.session)) ∧
      d.received.length ≤ e.relayed.length := by
  intro w₀ w₁ w hAllowed hDevice₁
  obtain ⟨hBefore, hCall, hAfter⟩ := follows_append.mp hAllowed
  have hMeeting₀ := meeting_join (announced_run early) hEmpty hNe hNew hNew' challengeId kind
  obtain ⟨sent₁, k₁, hMeeting₁, -⟩ := hMeeting₀.run hBefore
  obtain ⟨sent₂, k₂, hMeeting₂, -⟩ := hMeeting₁.step hCall (step_step ..)
  obtain ⟨sent, k, hMeeting, -⟩ := hMeeting₂.run hAfter
  have hDevice₂ : (w₁.step (.call b (.route (.ok c)))).devices b =
      some (e₁.made (.route (.ok c))) := by
    simp [World.step, hDevice₁, Call.text?, devices_setDevice]
  obtain ⟨d, hDevice⟩ := hMeeting.device
  obtain ⟨e, hDevice', -⟩ := hMeeting₂.announced.seated.continues_run hDevice₂ after
  refine ⟨d, e, hDevice, hDevice', fun m s hRoute hForward hRead => ?_, fun hReady => ?_, ?_⟩
  · obtain ⟨-, rfl⟩ := relay_of_routeCeremony hRoute
    have hSent : sent₂ = [c.encode] := by
      refine (hMeeting₂.sent_eq hDevice₂).trans (Device.relayed_eq_of_mem ?_)
      simp [Session.call, hRoute, Answer.relayed?]
    obtain ⟨k', hPos, hArrived⟩ := (hSent ▸ hMeeting₂).run_forward hNe hAfter hForward
    obtain ⟨hTravels, hSame⟩ := CredentialMessage.travels_encode hText hIntegers hDecode
    exact hArrived.received_eq hPos hTravels hSame hDevice hRead
  · exact hMeeting₁.announced.routeCeremony_direct hDevice₁ hReady c
  · exact hMeeting.length_received_le hDevice hDevice'

def signedText : String :=
  "\x7b\"rawId\":\"AQID\",\"response\":\x7b\"signature\":\"MEUC\"\x7d," ++
  "\"clientExtensionResults\":\x7b\"uses\":7\x7d\x7d"

/-- A credential as a device sends it. -/
def signedMessage : CredentialMessage where
  rawId := some "AQID"
  response := { signature := some "MEUC" }
  clientExtensionResults := some (.object [("uses", .number (.integer 7))])

/-- The credential that is handed over. -/
def signed : Credential :=
  .assertion {
    rawId := some [1, 2, 3]
    response := { signature := some [48, 69, 2] }
    clientExtensionResults := some (.object [("uses", .number (.integer 7))]) }

/-- Both devices join. -/
def arriving : List Action :=
  [.call 0 .onOpen, .deliver 0, .join "room" 1 "room" .get, .call 1 .onOpen, .deliver 1]

/-- The scanner sends its credential. -/
def sending : List Action :=
  [.forward "room" 1 (Frame.credential signed.encode).toText, .deliver 0, .deliver 0]

/-- The first device gets what the second one has signed. -/
theorem signed_handed_over :
    ∃ d, ((((initial.step (.join "room" 0 "room" .get)).run arriving).step
      (.call 1 (.route (.ok signed)))).run sending).devices 0 = some d ∧ d.received = [signed] := by
  have hRoute : scanning.session.run (routeCeremony (.ok signed)) =
      (.ok (.relay signed.encode), { scanning.session with stage := .responded }) := by
    rw [session_scanning]
    rfl
  have hRelayed : signed.encode ∈ (scanning.made (.route (.ok signed))).relayed := by
    simp [Session.call, hRoute, Answer.relayed?]
  have hAllowed : ((initial.run []).step (.join "room" 0 "room" .get)).Follows
      (Undisturbed "room" 0 1) (arriving ++ .call 1 (.route (.ok signed)) :: sending) := by
    refine ⟨trivial, trivial, ⟨fun _ => .inr rfl, fun _ => rfl⟩, trivial, trivial, trivial,
      fun _ => ?_, trivial, trivial, trivial⟩
    exact ⟨scanning.made (.route (.ok signed)), rfl, signed.encode, hRelayed, rfl⟩
  have hEmpty : (initial.run []).hub.peers "room" = [] := rfl
  have hText : CredentialMessage.ofText signedText = .ok signedMessage := by decide +kernel
  have hIntegers : signedMessage.HasIntegers := by
    rintro v hv
    obtain rfl := Option.some.inj hv
    exact ⟨trivial, trivial⟩
  have hDecode : signedMessage.decode .get = .ok signed := by decide +kernel
  obtain ⟨d, -, hDevice, -, hPassed, -⟩ := hands_over_exactly_once (by decide) hEmpty rfl rfl hText
    hIntegers hDecode hAllowed (rfl : _ = some scanning)
  obtain ⟨hReceived, -⟩ := hPassed _ _ hRoute List.mem_cons_self rfl
  exact ⟨d, hDevice, hReceived⟩

end World

end RemoteSigning.Relay
