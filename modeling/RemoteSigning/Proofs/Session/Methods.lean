import RemoteSigning.Session.Basic
import RemoteSigning.Proofs.Results

/-!
# The methods of a session

What each method returns and what session it leaves, said once by an equation. No method changes the
session before its last step that can fail, so one that fails leaves the session as it was.
-/

namespace RemoteSigning.Session

open Ceremony

variable {ε α β : Type}

@[simp]
theorem run_pure (s : Session) (a : α) : s.run (pure a : Method ε α) = (.ok a, s) := rfl

@[simp]
theorem run_get (s : Session) : s.run (get : Method ε Session) = (.ok s, s) := rfl

@[simp]
theorem run_modify (s : Session) (f : Session → Session) :
    s.run (modify f : Method ε PUnit) = (.ok ⟨⟩, f s) := rfl

/-- A result that is passed on leaves the session as it is. -/
@[simp]
theorem run_ofExcept (s : Session) (x : Except ε α) :
    s.run (MonadExcept.ofExcept x : Method ε α) = (x, s) := by
  cases x <;> rfl

/-- Once a step has failed nothing behind it is done, but what has been changed stays. -/
@[simp]
theorem run_bind (s : Session) (x : Method ε α) (f : α → Method ε β) :
    s.run (x >>= f) =
      match s.run x with
      | (.ok a, s) => s.run (f a)
      | (.error e, s) => (.error e, s) := by
  cases hRun : s.run x with
  | mk result left =>
      have hBind : s.run (x >>= f) = ExceptT.bindCont f (s.run x).1 (s.run x).2 := rfl
      rw [hBind, hRun]
      cases result <;> rfl

/-- Changing the result of a method does not change what it does to the session. -/
@[simp]
theorem run_map (s : Session) (x : Method ε α) (f : α → β) :
    s.run (f <$> x) = ((s.run x).1.map f, (s.run x).2) := by
  rw [← bind_pure_comp, run_bind]
  cases hRun : s.run x with
  | mk result left => cases result <;> rfl

/-- A session that accepts a credential passes it on, if it is one of the ceremony that is expected,
and has responded then. Any other session lets it pass. -/
theorem run_handleCredential (s : Session) (m : CredentialMessage) :
    s.run (handleCredential m) =
      if s.isInitiator ∧ s.stage ≠ .responded then
        match m.decode s.kind with
        | .ok c => (.ok (some (.credentialReceived c)), { s with stage := .responded })
        | .error e => (.error e, s)
      else (.ok none, s) := by
  rw [handleCredential]
  cases hRole : s.isInitiator with
  | false => simp [hRole]
  | true =>
      by_cases hStage : s.stage = .responded
      · simp [hRole, hStage]
      · cases hDecode : m.decode s.kind <;> simp [hRole, hStage, hDecode]

@[simp]
theorem run_handleFrame_event (s : Session) (e : Event) :
    s.run (handleFrame (.event e)) = (.ok (s.handleEvent e).1, (s.handleEvent e).2) := rfl

@[simp]
theorem run_handleFrame_credential (s : Session) (m : CredentialMessage) :
    s.run (handleFrame (.credential m)) = s.run (handleCredential m) := rfl

@[simp]
theorem run_handleFrame_unknown (s : Session) (v : Json.Value) :
    s.run (handleFrame (.unknown v)) = (.ok none, s) := rfl

/-- A text is handled as the frame that it is, and a text that is no frame changes nothing. -/
theorem run_handleText (s : Session) (text : String) :
    s.run (handleText text) =
      match Frame.ofText text with
      | .ok f => s.run (handleFrame f)
      | .error e => (.error e, s) := by
  rw [handleText, run_bind, run_ofExcept]
  cases Frame.ofText text <;> rfl

/-- A text is handled successfully exactly if it is a frame that is. -/
theorem handleText_eq_ok {s s' : Session} {text : String} {e? : Option Effect} :
    s.run (handleText text) = (.ok e?, s') ↔
      ∃ f, Frame.ofText text = .ok f ∧ s.run (handleFrame f) = (.ok e?, s') := by
  rw [run_handleText]
  cases Frame.ofText text <;> simp

/-- A credential goes to the peer from a ready scanner, which has responded then, and is handed back
otherwise. -/
theorem run_routeCeremony_ok (s : Session) (c : Credential) :
    s.run (routeCeremony (.ok c)) =
      if s.sendsOverRelay then (.ok (.relay c.encode), { s with stage := .responded })
      else (.ok (.direct c), s) := by
  rw [routeCeremony]
  cases hSends : s.sendsOverRelay <;> simp [hSends]

@[simp]
theorem run_routeCeremony_error (s : Session) (e : CeremonyError) :
    s.run (routeCeremony (.error e)) = (.error e, s) := rfl

variable {s s' : Session}

/-- A text that is refused leaves the session as it was: the credential is read before anything is
changed. -/
theorem eq_of_handleText_error {text : String} {e : DecodeError}
    (h : s.run (handleText text) = (.error e, s')) : s' = s := by
  rw [run_handleText] at h
  split at h
  · rename_i f _
    cases f with
    | event e => cases h
    | unknown v => cases h
    | credential m =>
        rw [run_handleFrame_credential, run_handleCredential] at h
        repeat' split at h
        all_goals cases h
        rfl
  · cases h
    rfl

/-- A failure of the platform is all that is passed on as one, and it leaves the session as it was. -/
theorem eq_of_routeCeremony_error {outcome : Except CeremonyError Credential} {e : CeremonyError}
    (h : s.run (routeCeremony outcome) = (.error e, s')) : outcome = .error e ∧ s' = s := by
  cases outcome with
  | error e' =>
      cases h
      exact ⟨rfl, rfl⟩
  | ok c =>
      rw [run_routeCeremony_ok] at h
      split at h <;> cases h

end RemoteSigning.Session
