import RemoteSigning.Proofs.Ceremony.Credentials
import RemoteSigning.Proofs.Session.Runs
import RemoteSigning.Session.Client

/-!
# Messages on a socket

What arrives on a socket does to a session what calls do, so a session that has responded stays so,
and the kind of its ceremony never changes. A session hands over a credential only when a text
arrives that holds one of that kind.
-/

namespace RemoteSigning.Session

open Ceremony

/-- Receiving a message is a run of calls. -/
theorem exists_receive_eq_after (s : Session) (m : Session.Message) :
    ∃ calls, (s.receive m).2 = s.after calls := by
  cases m with
  | text content =>
      refine ⟨[.handle content], ?_⟩
      rw [after_cons, after_nil, receive, call]
      cases hRun : s.run (handleText content) with
      | mk result left => cases result <;> rfl
  | other => exact ⟨[], rfl⟩
  | close => exact ⟨[.onClose], rfl⟩
  | broken reason => exact ⟨[.onTransportError], rfl⟩

theorem receive_kind (s : Session) (m : Session.Message) : (s.receive m).2.kind = s.kind := by
  obtain ⟨calls, hCalls⟩ := s.exists_receive_eq_after m
  rw [hCalls, kind_after]

/-- A session that has responded stays so. -/
theorem receive_responded {s : Session} (h : s.stage = .responded) (m : Session.Message) :
    (s.receive m).2.stage = .responded := by
  obtain ⟨calls, hCalls⟩ := s.exists_receive_eq_after m
  rw [hCalls, responded_after h]

/-- Whether a message relays a credential of a kind. -/
def Message.Relays (m : Session.Message) (kind : Kind) (c : Credential) : Prop :=
  ∃ content message, m = .text content ∧ Frame.ofText content = .ok (.credential message) ∧
    message.decode kind = .ok c

theorem Message.Relays.kind_eq {m : Session.Message} {kind : Kind} {c : Credential}
    (h : m.Relays kind c) : c.kind = kind := by
  obtain ⟨_, message, -, -, hDecode⟩ := h
  exact (encode_of_decode hDecode).1

/-- An event hands over no credential. -/
theorem handleEvent_ne_credential (s : Session) (e : Event) (c : Credential) :
    (s.handleEvent e).1 ≠ some (.credentialReceived c) := by
  cases e with
  | waiting => rw [handleEvent, onWaiting_effect]; split <;> simp
  | ready => rw [handleEvent, onReady_effect]; split <;> simp
  | connecting | closed | error | busy => simp [handleEvent]

/-- Only a session that has not responded hands over a credential, and it has responded then. -/
theorem handleText_eq_credential {s s' : Session} {content : String} {c : Credential}
    (h : s.run (handleText content) = (.ok (some (.credentialReceived c)), s')) :
    s.stage ≠ .responded ∧ s'.stage = .responded ∧
      (Session.Message.text content).Relays s.kind c := by
  obtain ⟨f, hFrame, hHandled⟩ := handleText_eq_ok.mp h
  cases f with
  | unknown v => cases hHandled
  | event e =>
      have hEffect := Except.ok.inj (congrArg Prod.fst hHandled)
      exact absurd hEffect (s.handleEvent_ne_credential e c)
  | credential message =>
      rw [run_handleFrame_credential, run_handleCredential] at hHandled
      split at hHandled
      · rename_i hAccepts
        split at hHandled
        · rename_i hDecode
          cases hHandled
          exact ⟨hAccepts.2, rfl, content, message, rfl, hFrame, hDecode⟩
        · cases hHandled
      · cases hHandled

/-- A credential is received once, and of the kind of the session. -/
theorem receive_eq_credential {s s' : Session} {m : Session.Message} {c : Credential}
    (h : s.receive m = (.ok (some (.credentialReceived c)), s')) :
    s.stage ≠ .responded ∧ s'.stage = .responded ∧ m.Relays s.kind c := by
  cases m with
  | other | close | broken reason => cases h
  | text content =>
      rw [receive, Prod.mk.injEq, Except.mapError_eq_ok] at h
      exact handleText_eq_credential (Prod.ext h.1 h.2)

end RemoteSigning.Session
