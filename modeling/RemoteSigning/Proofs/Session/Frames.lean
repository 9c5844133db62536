import RemoteSigning.Proofs.Ceremony.Messages
import RemoteSigning.Proofs.Session.Calls

/-!
# Frames read back

The text of an event is read as that event, and the text of a credential message that travels as
that message. So a session that is handed such a text does what the frame calls for.
-/

namespace RemoteSigning.Session

open Ceremony Json

variable {s : Session} {m : CredentialMessage} {c : Credential}

theorem Frame.ofText_event (e : Event) : Frame.ofText e.text = .ok (.event e) := by
  have hParse : parse e.text = .ok (.object [("event", .string e.name)]) := by
    have hLevels : (Value.object [("event", .string e.name)]).levels < 128 := by
      simp only [Value.levels, Value.membersLevels]
      omega
    exact parse_compact ⟨trivial, trivial⟩ hLevels
  have hValue : Frame.ofValue (.object [("event", .string e.name)]) = .ok (.event e) := by
    cases e <;> rfl
  simp only [Frame.ofText, hParse, Except.mapError_ok, Except.ok_bind, hValue]

/-- A credential that can travel arrives as it was sent. -/
theorem Frame.ofText_credential (h : m.Travels) :
    Frame.ofText (Frame.credential m).toText = .ok (.credential m) := by
  have hResponse : ((Value.object m.sortedMembers).member? "response").isSome := by
    rw [Value.member?, List.lookup_isSome_iff]
    exact ⟨("response", .object m.response.sortedMembers),
      by simp [CredentialMessage.sortedMembers], rfl⟩
  simp only [Frame.ofText, Frame.toText, Frame.toValue, h.parse_compact, Except.mapError_ok,
    Except.ok_bind, Frame.ofValue, hResponse, if_true, decodeValue, h.reads.2]
  rfl

theorem call_handle_event (s : Session) (e : Event) :
    s.call (.handle e.text) = (.effect (s.handleEvent e).1, (s.handleEvent e).2) := by
  simp only [call, run_handleText, Frame.ofText_event, run_handleFrame_event]

/-- An initiator that has not responded passes on a credential that travels. -/
theorem handleText_credential (hInitiator : s.isInitiator) (hUnused : s.stage ≠ .responded)
    (hTravels : m.Travels) (hDecode : m.decode s.kind = .ok c) :
    s.run (handleText (Frame.credential m).toText) =
      (.ok (some (.credentialReceived c)), { s with stage := .responded }) := by
  simp only [run_handleText, Frame.ofText_credential hTravels, run_handleFrame_credential,
    run_handleCredential, if_pos (And.intro hInitiator hUnused), hDecode]

/-- The initiator that has no response yet is handed the credential. -/
theorem call_handle_credential (hInitiator : s.isInitiator) (hUnused : s.stage ≠ .responded)
    (hTravels : m.Travels) (hDecode : m.decode s.kind = .ok c) :
    s.call (.handle (Frame.credential m).toText) =
      (.effect (some (.credentialReceived c)), { s with stage := .responded }) := by
  rw [call, handleText_credential hInitiator hUnused hTravels hDecode]

/-- Any other session lets a credential that travels pass without a trace. -/
theorem call_handle_credential_of_unread (hUnread : ¬ (s.isInitiator ∧ s.stage ≠ .responded))
    (hTravels : m.Travels) :
    s.call (.handle (Frame.credential m).toText) = (.effect none, s) := by
  simp only [call, run_handleText, Frame.ofText_credential hTravels, run_handleFrame_credential,
    run_handleCredential, if_neg hUnread]

end RemoteSigning.Session
