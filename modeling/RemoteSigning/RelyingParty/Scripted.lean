import RemoteSigning.Collection.Collector
import RemoteSigning.RelyingParty.Request
/-!
# A relying party that follows a script

It serves challenges that it was given and outcomes one after the other, and keeps what is
submitted. It verifies nothing.
-/

namespace RemoteSigning.RelyingParty

open Ceremony

/-- The state of a scripted relying party. -/
structure Scripted where
  challenges : List (String × ChallengeMessage) := []
  /-- The outcomes that are still to be given. -/
  outcomes : List Answer := []
  redirect : Redirect := .close
  /-- What was submitted, oldest first. -/
  submissions : List (String × CredentialMessage) := []
  /-- The challenges that were rejected, oldest first. -/
  rejections : List String := []
  issued : Nat := 0
  polls : Nat := 0

namespace Scripted

/-- The failure for a challenge that it does not know. -/
def notFound (challengeId : String) : Failure :=
  .refused 404 "not_found" ("challenge " ++ challengeId ++ " not found")

def challenge (s : Scripted) (challengeId : String) : Except Failure ChallengeMessage :=
  match s.challenges.lookup challengeId with
  | some m => .ok m
  | none => .error (notFound challengeId)

/-- Gives the next outcome. When there is none, nothing has happened. -/
def poll (s : Scripted) : Except TransportFailure Outcome × Scripted :=
  match s.outcomes with
  | [] => (.ok .pending, { s with polls := s.polls + 1 })
  | a :: rest => (a.result, { s with outcomes := rest, polls := s.polls + 1 })

def push (s : Scripted) (o : Outcome) : Scripted :=
  { s with outcomes := s.outcomes ++ [{ result := .ok o }] }

/-- Issues a challenge, of a name and secret that occur only once. -/
def issue (s : Scripted) (r : SignRequest) : Except Failure (IssuedChallenge × Scripted) := do
  r.validate
  let n := toString s.issued
  return (⟨"mock-challenge-" ++ n, ⟨"mock-secret-" ++ n⟩⟩, { s with issued := s.issued + 1 })

def fetch (s : Scripted) (challengeId : String) : Except Failure Challenge := do
  ((← s.challenge challengeId).decode challengeId).mapError .decode

def submit (s : Scripted) (challengeId : String) (m : CredentialMessage) :
    Except Failure (Redirect × Scripted) := do
  discard (s.challenge challengeId)
  return (s.redirect, { s with submissions := s.submissions ++ [(challengeId, m)] })

/-- Rejects a challenge, which becomes an outcome. -/
def reject (s : Scripted) (challengeId : String) : Except Failure (Redirect × Scripted) := do
  discard (s.challenge challengeId)
  return (s.redirect, { s with rejections := s.rejections ++ [challengeId] }.push .rejected)

/-- Collects the outcome of a challenge for at most a number of turns. -/
def collect (s : Scripted) (turns : Nat) (challengeId : String) : Outcome × Scripted :=
  let collector : Collector := { source := .ofScript s.outcomes }
  let summary := collector.collect challengeId turns 0
  (summary.outcome,
    { s with
      outcomes := s.outcomes.drop summary.requests.length
      polls := s.polls + summary.requests.length })

end Scripted

end RemoteSigning.RelyingParty
