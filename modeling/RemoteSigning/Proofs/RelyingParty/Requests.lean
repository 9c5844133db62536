import RemoteSigning.Proofs.Results
import RemoteSigning.RelyingParty.Client

/-!
# Requests and what follows them

A request is sent again only after a failure that may pass, and only if the call is one that is
repeated. Either way the call ends as its last answer says, and with an error of its own and nothing
sent if no request can be made, or if its scheme is none under which anything is sent.
-/

namespace RemoteSigning

/-- The status of a reply, if one came. -/
def Network.Reply.status? : Network.Reply → Option Nat
  | .unreachable _ | .broken _ => none
  | .answered r => some r.status
  | .cutOff status _ => some status

namespace RelyingParty

open Json Ceremony Network

variable {client : Client} {log : Log} {r : Network.Request} {u : Url} {arrival : Arrival}

/-- The statuses that say that a relying party has no time right now. -/
def busyStatuses : List Nat := [429, 502, 503, 504]

theorem transientFailure?_eq_none_iff {status : Nat} :
    transientFailure? status = none ↔ status ∉ busyStatuses := by
  simp [transientFailure?, transientStatuses, busyStatuses, List.lookup_eq_none_iff]

/-- A busy server is reported as unavailable. -/
theorem transientFailure?_eq_some {status : Nat} {e : TransportFailure}
    (h : transientFailure? status = some e) :
    status ∈ busyStatuses ∧ ∃ reason, e = .unavailable reason := by
  refine ⟨?_, ?_⟩
  · refine Decidable.byContradiction fun hOther => ?_
    rw [transientFailure?_eq_none_iff.mpr hOther] at h
    cases h
  · obtain ⟨name, -, rfl⟩ := Option.map_eq_some_iff.mp h
    exact ⟨_, rfl⟩

/-- Whether an answer is a failure of the kind that documents name: none came in time, no connection
was made, or the status is that of a relying party that has no time. -/
def Client.IsTransient (client : Client) (arrival : Arrival) : Prop :=
  client.config.timeout ≤ arrival.delay ∨ (∃ causes, arrival.reply = .unreachable causes) ∨
    ∃ status ∈ arrival.reply.status?, status ∈ busyStatuses

/-- Whether an answer is a failure that is taken to pass: one of those, or the connection broke before
there was a status. -/
def Client.MayPass (client : Client) (arrival : Arrival) : Prop :=
  client.IsTransient arrival ∨ ∃ causes, arrival.reply = .broken causes

theorem Client.mayPass_iff (client : Client) (arrival : Arrival) :
    client.MayPass arrival ↔
      client.config.timeout ≤ arrival.delay ∨
        ∀ status ∈ arrival.reply.status?, status ∈ busyStatuses := by
  rw [MayPass, IsTransient, or_assoc]
  refine or_congr_right ?_
  cases arrival.reply <;> simp [Reply.status?]

/-- Whether a connection broke before there was a status, and before it was too late for one. -/
def Client.Breaks (client : Client) (arrival : Arrival) : Prop :=
  arrival.delay < client.config.timeout ∧ ∃ causes, arrival.reply = .broken causes

/-- Of what is taken to pass, documents name all but a connection that broke. -/
theorem Client.MayPass.isTransient_iff (h : client.MayPass arrival) :
    client.IsTransient arrival ↔ ¬ client.Breaks arrival := by
  constructor
  · rintro (hLate | ⟨causes, hUnreachable⟩ | ⟨status, hStatus, -⟩) ⟨hInTime, causes', hBroken⟩
    · exact absurd hLate (Nat.not_le.mpr hInTime)
    · cases hUnreachable.symm.trans hBroken
    · rw [hBroken] at hStatus
      cases hStatus
  · intro hWhole
    obtain hTransient | hBroken := h
    · exact hTransient
    · exact .inl (Nat.not_lt.mp fun hInTime => hWhole ⟨hInTime, hBroken⟩)

/-- What an attempt makes of its answer. -/
def Client.attemptOf (client : Client) (u : Url) (arrival : Arrival) : Attempt :=
  (Attempt.ofArrival client.config.timeout u arrival).1

/-- Once there is a status it says alone whether the failure may pass, and the body is not waited for
then. -/
theorem ofStatus_eq_transient {timeout status time : Nat} {read : Attempt} {e : TransportFailure}
    (hRead : ∀ e, read ≠ .transient e)
    (h : Attempt.ofStatus timeout arrival status read = (.transient e, time)) :
    status ∈ busyStatuses ∧ time = arrival.delay := by
  rw [Attempt.ofStatus] at h
  split at h
  · rename_i hBusy
    cases h
    exact ⟨(transientFailure?_eq_some hBusy).1, rfl⟩
  · split at h
    · cases h
    · exact absurd (congrArg Prod.fst h) (hRead e)

/-- An attempt that fails so that it may pass has been waiting for a status, and for no body. -/
theorem ofArrival_eq_transient {timeout time : Nat} {e : TransportFailure}
    (h : Attempt.ofArrival timeout u arrival = (.transient e, time)) :
    (timeout ≤ arrival.delay ∨ ∀ status ∈ arrival.reply.status?, status ∈ busyStatuses) ∧
      time = min timeout arrival.delay := by
  rw [Attempt.ofArrival] at h
  split at h
  · rename_i hLate
    cases h
    exact ⟨.inl hLate, (Nat.min_eq_left hLate).symm⟩
  · rename_i hInTime
    rw [Nat.min_eq_right (Nat.le_of_not_le hInTime)]
    cases hReply : arrival.reply with
    | unreachable causes | broken causes =>
        rw [hReply] at h
        cases h
        exact ⟨.inr (by simp [Reply.status?]), rfl⟩
    | answered response | cutOff status causes =>
        rw [hReply] at h
        obtain ⟨hBusy, hTime⟩ := ofStatus_eq_transient (by simp) h
        exact ⟨.inr (by simpa [Reply.status?] using hBusy), hTime⟩

theorem Client.mayPass_of_transient {e : TransportFailure}
    (h : client.attemptOf u arrival = .transient e) : client.MayPass arrival :=
  (client.mayPass_iff arrival).mpr (ofArrival_eq_transient (Prod.ext h rfl)).1

theorem Client.attempt_of_sendable (h : isSendable r.url.scheme) (log : Log) :
    (client.attempt r log).1 = client.attemptOf r.url (client.network log.sent r) ∧
      (client.attempt r log).2.sent = log.sent ++ [r] := by
  rw [attempt, attemptOf, if_neg (by simp [h])]
  exact ⟨rfl, rfl⟩

/-- Whether these are the answers to a request that is sent after others, and is sent again only
after failures that may pass. -/
inductive Client.Insists (client : Client) (r : Network.Request) :
    List Network.Request → List Arrival → Prop where
  | last (before : List Network.Request) : Insists client r before [client.network before r]
  | again {before : List Network.Request} {answers : List Arrival}
      (mayPass : client.MayPass (client.network before r))
      (rest : Insists client r (before ++ [r]) answers) :
      Insists client r before (client.network before r :: answers)

/-- All answers but the last are failures that may pass. -/
theorem Client.Insists.mayPass {before : List Network.Request} {answers : List Arrival}
    (h : client.Insists r before answers) : ∀ answer ∈ answers.dropLast, client.MayPass answer := by
  induction h with
  | last => exact fun _ hNone => absurd hNone List.not_mem_nil
  | again hFirst hRest ih =>
      rw [List.dropLast_cons_of_ne_nil (by cases hRest <;> exact List.cons_ne_nil _ _)]
      exact List.forall_mem_cons.mpr ⟨hFirst, ih⟩

/-- What an attempt leaves to interpret. -/
def Attempt.result : Attempt → Except TransportFailure Network.Response
  | .answered response => .ok response
  | .transient e => .error e
  | .permanent e => .error e

/-- Whether sending a request has ended after these answers. -/
structure Client.Ended (client : Client) (r : Network.Request) (log : Log) (answers : List Arrival)
    (ended : Except TransportFailure Network.Response × Log) : Prop where
  insists : client.Insists r log.sent answers
  sent : ended.2.sent = log.sent ++ List.replicate answers.length r
  result : ∃ last, answers.getLast? = some last ∧ ended.1 = (client.attemptOf r.url last).result

theorem Client.ended_attempt (h : isSendable r.url.scheme) (log : Log) :
    client.Ended r log [client.network log.sent r]
      ((client.attempt r log).1.result, (client.attempt r log).2) := by
  obtain ⟨hResult, hSent⟩ := client.attempt_of_sendable h log
  exact ⟨.last _, hSent, _, List.getLast?_singleton, congrArg Attempt.result hResult⟩

/-- An attempt that is followed by others has met with a failure that may pass. -/
theorem Client.Ended.again {e : TransportFailure} {after : Log} {now : Nat}
    {answers : List Arrival} {ended : Except TransportFailure Network.Response × Log}
    (h : isSendable r.url.scheme) (hAttempt : client.attempt r log = (.transient e, after))
    (hRest : client.Ended r { after with now } answers ended) :
    client.Ended r log (client.network log.sent r :: answers) ended := by
  obtain ⟨hResult, hSent⟩ := client.attempt_of_sendable h log
  rw [hAttempt] at hResult hSent
  have hBefore : after.sent = log.sent ++ [r] := hSent
  obtain ⟨last, hLast, hEnd⟩ := hRest.result
  refine ⟨?_, ?_, last, ?_, hEnd⟩
  · exact .again (mayPass_of_transient hResult.symm) (hBefore ▸ hRest.insists)
  · rw [hRest.sent, hBefore, List.length_cons, List.replicate_succ, List.append_assoc,
      List.singleton_append]
  · rw [List.getLast?_cons, hLast, Option.getD_some]

/-- By induction on what is left of the time: asking again ends with the last answer. -/
theorem Client.ended_insist (h : isSendable r.url.scheme) (limit interval pauses : Nat)
    (log : Log) :
    ∃ answers, client.Ended r log answers (client.insist r limit interval pauses log) := by
  fun_induction client.insist r limit interval pauses log with
  | case3 interval pauses log e after hAttempt resumed _ ih =>
      obtain ⟨answers, hEnded⟩ := ih
      exact ⟨_, hEnded.again h hAttempt⟩
  | case1 interval pauses log response after hAttempt
  | case2 interval pauses log e after hAttempt
  | case4 interval pauses log e after hAttempt =>
      have hEnded := client.ended_attempt h log
      rw [hAttempt] at hEnded
      exact ⟨_, hEnded⟩

theorem Client.ended_execute (h : isSendable r.url.scheme) (again : Bool) (log : Log) :
    ∃ answers, client.Ended r log answers (client.execute again r log) ∧
      (again = false → answers.length = 1) := by
  rw [execute]
  split
  · rename_i hAgain
    obtain ⟨answers, hEnded⟩ := client.ended_insist h (log.now + client.config.patience)
      client.config.initialPause 0 log
    exact ⟨answers, hEnded, by simp [hAgain.1]⟩
  · have hEnded := client.ended_attempt h log
    refine ⟨[client.network log.sent r], ?_, fun _ => rfl⟩
    split <;> simpa only [*, Attempt.result] using hEnded

/-- A request that cannot be sent fails at once, and nothing is sent. -/
theorem Client.execute_of_not_sendable (h : isSendable r.url.scheme = false) (again : Bool)
    (log : Log) : client.execute again r log = (.error (badScheme r.url), log) := by
  have hAttempt (log : Log) : client.attempt r log = (.permanent (badScheme r.url), log) := by
    rw [attempt, h]
    rfl
  rw [execute]
  split
  · rw [insist, hAttempt]
  · rw [hAttempt]

section Calls

variable {ε α : Type} {lift : TransportFailure → ε} {interpret : Network.Response → Except ε α}
  {request : Except ε Network.Request} {answers : List Arrival} {ended : Except ε α × Log}

/-- What an answer comes to that has a status and, if that is no failure that may pass, a body of which
`read` comes. -/
def Client.verdictOfStatus (client : Client) (lift : TransportFailure → ε) (arrival : Arrival)
    (status : Nat) (read : Except ε α) : Except ε α :=
  match transientFailure? status with
  | some e => .error (lift e)
  | none =>
    if client.config.timeout ≤ arrival.delay + arrival.bodyDelay then
      .error (lift (unread lateBody))
    else read

/-- What the last answer to a request comes to. -/
def Client.verdict (client : Client) (lift : TransportFailure → ε)
    (interpret : Network.Response → Except ε α) (u : Url) (arrival : Arrival) : Except ε α :=
  if client.config.timeout ≤ arrival.delay then
    .error (lift (notSent u ["operation timed out"]))
  else
    match arrival.reply with
    | .unreachable causes | .broken causes => .error (lift (notSent u causes))
    | .cutOff status causes =>
      client.verdictOfStatus lift arrival status (.error (lift (unread causes)))
    | .answered r => client.verdictOfStatus lift arrival r.status (interpret r)

theorem Client.verdict_eq (client : Client) (u : Url) (arrival : Arrival) :
    client.verdict lift interpret u arrival =
      match (client.attemptOf u arrival).result with
      | .ok r => interpret r
      | .error e => .error (lift e) := by
  have hStatus (status : Nat) (read : Attempt) :
      client.verdictOfStatus lift arrival status
          (match read.result with
          | .ok r => interpret r
          | .error e => .error (lift e)) =
        match (Attempt.ofStatus client.config.timeout arrival status read).1.result with
        | .ok r => interpret r
        | .error e => .error (lift e) := by
    rw [verdictOfStatus, Attempt.ofStatus]
    cases transientFailure? status with
    | some e => rfl
    | none =>
        dsimp only
        split <;> rfl
  rw [verdict, attemptOf, Attempt.ofArrival]
  split
  · rfl
  · cases arrival.reply with
    | unreachable causes | broken causes => rfl
    | cutOff status causes => exact hStatus status (.permanent (unread causes))
    | answered r => exact hStatus r.status (.answered r)

/-- Whether a call has ended as its answers say: with an error and nothing sent if there is no
request or none that can be sent, and otherwise with what its last answer comes to. -/
inductive Client.Concludes (client : Client) (lift : TransportFailure → ε)
    (request : Except ε Network.Request) (interpret : Network.Response → Except ε α) (log : Log) :
    List Arrival → Except ε α × Log → Prop where
  | unmade {e : ε} (unmade : request = .error e) :
      Concludes client lift request interpret log [] (.error e, log)
  | unsent {r : Network.Request} (made : request = .ok r)
      (unsendable : isSendable r.url.scheme = false) :
      Concludes client lift request interpret log [] (.error (lift (badScheme r.url)), log)
  | answered {r : Network.Request} {answers : List Arrival} {last : Arrival} {after : Log}
      (made : request = .ok r) (insists : client.Insists r log.sent answers)
      (isLast : answers.getLast? = some last)
      (sent : after.sent = log.sent ++ List.replicate answers.length r) :
      Concludes client lift request interpret log answers
        (client.verdict lift interpret r.url last, after)

/-- Whatever is called, it ends with an answer of the network or with a request that cannot be made.
-/
theorem Client.call_concludes (client : Client) (again : Bool) (lift : TransportFailure → ε)
    (request : Except ε Network.Request) (interpret : Network.Response → Except ε α) (log : Log) :
    ∃ answers, client.Concludes lift request interpret log answers
        (client.call again lift request interpret log) ∧
      (again = false → answers.length ≤ 1) := by
  cases request with
  | error e => exact ⟨[], .unmade rfl, fun _ => Nat.zero_le 1⟩
  | ok r =>
      rw [call]
      cases hScheme : isSendable r.url.scheme with
      | false =>
          rw [client.execute_of_not_sendable hScheme]
          exact ⟨[], .unsent rfl hScheme, fun _ => Nat.zero_le 1⟩
      | true =>
          obtain ⟨answers, ⟨hInsists, hSent, last, hLast, hResult⟩, hOnce⟩ :=
            client.ended_execute hScheme again log
          refine ⟨answers, ?_, fun hAgain => Nat.le_of_eq (hOnce hAgain)⟩
          have hConcludes : client.Concludes lift (.ok r) interpret log answers
              (client.verdict lift interpret r.url last, (client.execute again r log).2) :=
            .answered rfl hInsists hLast hSent
          rw [verdict_eq, ← hResult] at hConcludes
          split <;> simpa only [*] using hConcludes

/-- A call adds one request for every answer, and no other than the one made for it. -/
theorem Client.Concludes.sent_eq
    (h : client.Concludes lift request interpret log answers ended) :
    ∃ posts : List Network.Request, ended.2.sent = log.sent ++ posts ∧
      posts.length = answers.length ∧ ∀ post ∈ posts, request = .ok post := by
  cases h with
  | unmade | unsent => exact ⟨[], (List.append_nil _).symm, rfl, by simp⟩
  | @answered r _ _ _ hMade _ _ hSent =>
      refine ⟨List.replicate answers.length r, hSent, List.length_replicate, fun post hPost => ?_⟩
      rw [List.eq_of_mem_replicate hPost, hMade]

/-- A call repeats its request only after failures that documents name exactly if no connection broke
before the last answer. -/
theorem Client.Concludes.isTransient_iff
    (h : client.Concludes lift request interpret log answers ended) :
    (∀ answer ∈ answers.dropLast, client.IsTransient answer) ↔
      ∀ answer ∈ answers.dropLast, ¬ client.Breaks answer := by
  cases h with
  | unmade | unsent => simp
  | answered _ hInsists =>
      exact forall₂_congr fun answer hMem => (hInsists.mayPass answer hMem).isTransient_iff

end Calls

/-- Whether a request posts a message to a challenge, with nothing but the message as its body. -/
def Client.Posts (client : Client) (challengeId : String) (m : CredentialMessage)
    (post : Network.Request) : Prop :=
  ∃ u, client.endpoint (Client.challengePath challengeId) = .ok u ∧
    post = .make "POST" u (some m.toValue.compact)

/-- Submitting a credential sends at most one request. -/
theorem Client.submit_sent (client : Client) (challengeId : String) (m : CredentialMessage)
    (log : Log) :
    ∃ posts : List Network.Request,
      (client.submit challengeId m log).2.sent = log.sent ++ posts ∧
        posts.length ≤ 1 ∧ ∀ post ∈ posts, client.Posts challengeId m post := by
  obtain ⟨answers, hConcludes, hOnce⟩ := client.call_concludes false .transport
    (return .make "POST" (← client.endpoint (challengePath challengeId)) (some m.toValue.compact))
    Redirect.ofResponse log
  obtain ⟨posts, hSent, hLength, hMade⟩ := hConcludes.sent_eq
  refine ⟨posts, hSent, hLength ▸ hOnce rfl, fun post hPost => ?_⟩
  obtain ⟨u, hUrl, hRequest⟩ := Except.bind_eq_ok.mp (hMade post hPost)
  exact ⟨u, hUrl, (Except.ok.inj hRequest).symm⟩

end RelyingParty
end RemoteSigning
