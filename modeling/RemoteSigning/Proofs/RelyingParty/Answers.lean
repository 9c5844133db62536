import RemoteSigning.Proofs.RelyingParty.Requests

/-!
# Answers of a relying party

What changes something at a relying party is sent at most once; what only reads is sent again while
the answer is a failure that is taken to pass. A connection that breaks before there is a status is
one of them, although the request may have been heard. The last answer is told as what it is: a
relying party that has no time is unavailable, and any other failure keeps its status.
-/

namespace RemoteSigning.RelyingParty

open Json Ceremony Network

variable {client : Client} {log : Log}

section Tells

variable {ε α : Type} {lift : TransportFailure → ε} {interpret : Network.Response → Except ε α}
  {request : Except ε Network.Request} {answers : List Arrival} {ended : Except ε α × Log}

/-- Whether the result tells the status of the last answer, if one came in time: that the relying
party is unavailable if it has no time right now, and otherwise what is to be told of the answer, if
its body came in time as well. -/
def Client.Tells (client : Client) (lift : TransportFailure → ε)
    (told : Network.Response → Except ε α → Prop) (answers : List Arrival)
    (result : Except ε α) : Prop :=
  ∀ last ∈ answers.getLast?, last.delay < client.config.timeout →
    (∀ status ∈ last.reply.status?, status ∈ busyStatuses →
      ∃ reason, result = .error (lift (.unavailable reason))) ∧
    ∀ response, last.reply = .answered response → response.status ∉ busyStatuses →
      last.delay + last.bodyDelay < client.config.timeout → told response result

theorem Client.Concludes.tells {told : Network.Response → Except ε α → Prop}
    (h : client.Concludes lift request interpret log answers ended)
    (hTold : ∀ response, told response (interpret response)) :
    client.Tells lift told answers ended.1 := by
  cases h with
  | unmade | unsent => rintro last ⟨⟩
  | @answered r answers last after _ _ hLast _ =>
      intro last' hLast' hTime
      obtain rfl := Option.some.inj (hLast.symm.trans hLast')
      have hInTime : ¬client.config.timeout ≤ last.delay := Nat.not_le.mpr hTime
      rw [verdict, if_neg hInTime]
      refine ⟨fun status hStatus hBusy => ?_, fun response hReply hOther hWhole => ?_⟩
      · cases hFailure : transientFailure? status with
        | none => exact absurd hBusy (transientFailure?_eq_none_iff.mp hFailure)
        | some e =>
            obtain ⟨reason, rfl⟩ := (transientFailure?_eq_some hFailure).2
            refine ⟨reason, ?_⟩
            cases hReply : last.reply with
            | unreachable causes | broken causes => simp [hReply, Reply.status?] at hStatus
            | answered response | cutOff status' causes =>
                obtain rfl : _ = status := by simpa [hReply, Reply.status?] using hStatus
                simp [verdictOfStatus, hFailure]
      · rw [hReply]
        dsimp only
        rw [verdictOfStatus, transientFailure?_eq_none_iff.mpr hOther]
        dsimp only
        rw [if_neg (Nat.not_le.mpr hWhole)]
        exact hTold response

end Tells

/-- Whether a failure of the relying party is told with its status. -/
def Refuses {α : Type} (response : Network.Response) (result : Except Failure α) : Prop :=
  Outcome.isSuccess response.status = false →
    ∃ code reason, result = .error (.refused response.status code reason)

theorem refuses_expect {α : Type} (decoder : Decoder α) (response : Network.Response) :
    Refuses response (expect decoder response) := by
  intro hFailure
  simp only [expect, hFailure, Bool.false_eq_true, if_false]
  exact ⟨_, _, rfl⟩

/-- A failure stays one, whatever else an answer is read for. -/
theorem Refuses.bind {α β : Type} {response : Network.Response} {result : Except Failure α}
    (h : Refuses response result) (next : α → Except Failure β) :
    Refuses response (result >>= next) := by
  intro hFailure
  obtain ⟨code, reason, rfl⟩ := h hFailure
  exact ⟨code, reason, rfl⟩

/-- The request for a new challenge, if the challenge that is asked for is valid. -/
def Client.issuing (client : Client) (request : SignRequest) : Except Failure Network.Request := do
  request.validate
  let u ← client.endpoint "api/v1/sign"
  return client.authorized (.make "POST" u (some request.toValue.compact))

/-- A request for one challenge. -/
def Client.addressing (client : Client) (method challengeId : String) (json : Option String) :
    Except Failure Network.Request := do
  return .make method (← client.endpoint (challengePath challengeId)) json

/-- The request for the outcome of a challenge. -/
def Client.polling (client : Client) (challengeId : String) :
    Except TransportFailure Network.Request := do
  let u ← (client.config.baseUrl.resolve collectPath).mapError fun e => .badAnswer e.message
  return client.authorized (.make "POST" u (some (pollBody challengeId).compact))

/-- Issuing a challenge, submitting a credential and rejecting a challenge send at most one request,
and none if the challenge that is asked for is not valid. Fetching a challenge and asking for its
outcome, by a client that can count the time for it, send another request only after a failure that
is taken to pass: one of the kind that documents name, or a connection that broke before there was a
status. So they do as documents say exactly if none of the answers but the last was such a connection.
Every call ends as its last answer says: if the relying party has no time, it is unavailable, and any
other failure of its is told with its status; asked for an outcome, it is what the answer means. -/
theorem Client.concludes_by_last_answer (client : Client) (log : Log) :
    (∀ request : SignRequest, ∃ answers,
      client.Concludes .transport (client.issuing request)
          (expect IssuedChallenge.form.decoder) log answers (client.issue request log) ∧
        client.Tells .transport Refuses answers (client.issue request log).1 ∧
        answers.length ≤ 1 ∧ (request.validate = .ok () ∨
          ∃ e, request.validate = .error e ∧ client.issue request log = (.error e, log))) ∧
    (∀ challengeId m, ∃ answers,
      client.Concludes .transport (client.addressing "POST" challengeId (some m.toValue.compact))
          Redirect.ofResponse log answers (client.submit challengeId m log) ∧
        client.Tells .transport Refuses answers (client.submit challengeId m log).1 ∧
        answers.length ≤ 1) ∧
    (∀ challengeId, ∃ answers,
      client.Concludes .transport (client.addressing "DELETE" challengeId none)
          Redirect.ofResponse log answers (client.reject challengeId log) ∧
        client.Tells .transport Refuses answers (client.reject challengeId log).1 ∧
        answers.length ≤ 1) ∧
    (client.config.isCountable → ∀ challengeId, ∃ answers,
      client.Concludes .transport (client.addressing "GET" challengeId none)
          (fun response => do
            ((← expect ChallengeMessage.form.decoder response).decode challengeId).mapError .decode)
          log answers (client.fetch challengeId log) ∧
        ((∀ answer ∈ answers.dropLast, client.IsTransient answer) ↔
          ∀ answer ∈ answers.dropLast, ¬ client.Breaks answer) ∧
        client.Tells .transport Refuses answers (client.fetch challengeId log).1) ∧
    (client.config.isCountable → ∀ challengeId, ∃ answers,
      client.Concludes id (client.polling challengeId)
          (fun response => .ok (Outcome.ofResponse response.status response.body))
          log answers (client.poll challengeId log) ∧
        ((∀ answer ∈ answers.dropLast, client.IsTransient answer) ↔
          ∀ answer ∈ answers.dropLast, ¬ client.Breaks answer) ∧
        client.Tells id
          (fun response result => result = .ok (Outcome.ofResponse response.status response.body))
          answers (client.poll challengeId log).1) := by
  have hRedirect (response : Network.Response) : Refuses response (Redirect.ofResponse response) :=
    (refuses_expect _ response).bind _
  refine ⟨fun request => ?issue, fun challengeId m => ?submit, fun challengeId => ?reject,
    fun _ challengeId => ?fetch, fun _ challengeId => ?poll⟩
  case issue =>
    obtain ⟨answers, hConcludes, hOnce⟩ :=
      client.call_concludes false .transport (client.issuing request)
        (expect IssuedChallenge.form.decoder) log
    refine ⟨answers, hConcludes, hConcludes.tells (refuses_expect _), hOnce rfl, ?_⟩
    cases hValid : request.validate with
    | ok => exact .inl rfl
    | error e => exact .inr ⟨e, rfl, by rw [issue, hValid]; rfl⟩
  case submit =>
    obtain ⟨answers, hConcludes, hOnce⟩ :=
      client.call_concludes false .transport
        (client.addressing "POST" challengeId (some m.toValue.compact)) Redirect.ofResponse log
    exact ⟨answers, hConcludes, hConcludes.tells hRedirect, hOnce rfl⟩
  case reject =>
    obtain ⟨answers, hConcludes, hOnce⟩ :=
      client.call_concludes false .transport (client.addressing "DELETE" challengeId none)
        Redirect.ofResponse log
    exact ⟨answers, hConcludes, hConcludes.tells hRedirect, hOnce rfl⟩
  case fetch =>
    obtain ⟨answers, hConcludes, -⟩ :=
      client.call_concludes true .transport (client.addressing "GET" challengeId none) _ log
    exact ⟨answers, hConcludes, hConcludes.isTransient_iff,
      hConcludes.tells fun response => (refuses_expect _ response).bind _⟩
  case poll =>
    obtain ⟨answers, hConcludes, -⟩ :=
      client.call_concludes true id (client.polling challengeId) _ log
    exact ⟨answers, hConcludes, hConcludes.isTransient_iff,
      hConcludes.tells fun response => rfl⟩

/-- A client whose first connection breaks behind the request. Then it is told that nothing has
happened yet. -/
def interruptedClient : Client where
  config :=
    { baseUrl := { scheme := "http", host := some (.domain "localhost"), path := .segments [""] }
      maxRetries := 1 }
  network before _ :=
    if before = [] then { reply := .broken ["connection closed before message completed"] }
    else { reply := .answered { status := 200, body := [] } }
  chance := fun _ => 0

/-- Its call ends as its last answer says. -/
theorem interruptedClient_concludes :
    interruptedClient.config.isCountable ∧ ∃ answers,
      interruptedClient.Concludes id (interruptedClient.polling "c1")
        (fun response => .ok (Outcome.ofResponse response.status response.body))
        {} answers (interruptedClient.poll "c1" {}) := by
  have hCountable : interruptedClient.config.isCountable := by decide
  obtain ⟨-, -, -, -, hPoll⟩ := interruptedClient.concludes_by_last_answer {}
  obtain ⟨answers, hConcludes, -⟩ := hPoll hCountable "c1"
  exact ⟨hCountable, answers, hConcludes⟩

/-- It asks again, although it has had none of the answers after which documents want that. -/
theorem interruptedClient_asks_again :
    ∃ r, interruptedClient.polling "c1" = .ok r ∧
      ¬ interruptedClient.IsTransient (interruptedClient.network [] r) ∧
      (interruptedClient.poll "c1" {}).2.sent = [r, r] := by
  obtain ⟨r, hMade⟩ : ∃ r, interruptedClient.polling "c1" = .ok r := ⟨_, rfl⟩
  have hSendable : isSendable r.url.scheme := by
    cases hMade
    rfl
  have hFirst : interruptedClient.attempt r {} =
      (.transient (notSent r.url ["connection closed before message completed"]),
        { sent := [r] }) := by
    rw [Client.attempt, if_neg (by simp [hSendable])]
    rfl
  have hSecond (now : Nat) : interruptedClient.attempt r { sent := [r], now } =
      (.answered { status := 200, body := [] }, { sent := [r, r], now }) := by
    rw [Client.attempt, if_neg (by simp [hSendable])]
    rfl
  have hAgain : interruptedClient.execute true r {} =
      (.ok { status := 200, body := [] }, { sent := [r, r], now := 50 }) := by
    rw [Client.execute, if_pos ⟨rfl, by decide⟩, Client.insist, hFirst]
    dsimp only
    rw [if_pos (by decide), Client.insist, hSecond]
    rfl
  refine ⟨r, hMade, ?_, ?_⟩
  · rintro (hLate | ⟨causes, hReply⟩ | ⟨status, hStatus, -⟩)
    · exact absurd hLate (Nat.not_le.mpr (Nat.zero_lt_succ 9999))
    · cases hReply
    · cases hStatus
  · show (interruptedClient.call true id (interruptedClient.polling "c1") _ {}).2.sent = [r, r]
    rw [hMade, Client.call, hAgain]

end RemoteSigning.RelyingParty
