import Mathlib.Tactic.Ring
import RemoteSigning.Proofs.RelyingParty.Answers

/-!
# How often a request is sent

A call that only reads sends its request again as long as the answers are failures that may pass and
there is time. The number that is configured takes no other part in this than to set that time: so
many times the time that one request may take. It is a bound on the requests if each of them takes
that long; quick failures are repeated more often.
-/

namespace RemoteSigning.RelyingParty

open Ceremony Network

/-- The shortest pause between two requests. -/
def Config.shortestPause (c : Config) : Nat := max 1 ((min c.initialPause c.longestPause + 1) / 2)

variable {client : Client} {r : Network.Request} {before : List Network.Request} {log : Log}
  {arrival : Arrival} {n : Nat}

namespace Client

/-- The answer to a request that was sent so many times already, after others. -/
def answerAt (client : Client) (r : Network.Request) (before : List Network.Request) (n : Nat) :
    Arrival :=
  client.network (before ++ List.replicate n r) r

/-- How long a status is waited for. -/
def wait (client : Client) (arrival : Arrival) : Nat := min client.config.timeout arrival.delay

/-- The interval around which a pause is chosen, after so many others. -/
def intervalAt (client : Client) : Nat → Nat
  | 0 => client.config.initialPause
  | n + 1 => growth client.config.longestPause (intervalAt client n)

/-- The time from the first sending of a request until it has been sent so many times and may be
sent once more. -/
def lapse (client : Client) (r : Network.Request) (before : List Network.Request) : Nat → Nat
  | 0 => 0
  | n + 1 =>
    lapse client r before n + client.wait (client.answerAt r before n)
      + pause (client.intervalAt n) (client.chance n)

/-- Whether a request is sent once more after so many times: all answers were failures that may pass,
and there is still time. -/
structure Persists (client : Client) (r : Network.Request) (before : List Network.Request)
    (n : Nat) : Prop where
  mayPass : ∀ k < n, client.MayPass (client.answerAt r before k)
  inTime : client.lapse r before n ≤ client.config.patience

theorem shortestPause_le_pause (client : Client) (n : Nat) :
    client.config.shortestPause ≤ pause (client.intervalAt n) (client.chance n) := by
  have hInterval (n : Nat) :
      min client.config.initialPause client.config.longestPause ≤ client.intervalAt n := by
    induction n with
    | zero => exact Nat.min_le_left _ _
    | succ n ih =>
      rw [intervalAt, growth]
      omega
  have := hInterval n
  rw [Config.shortestPause, pause]
  omega

/-- Each time a request is sent again, at least the shortest pause has gone by. -/
theorem le_lapse (client : Client) (r : Network.Request) (before : List Network.Request) (n : Nat) :
    n * client.config.shortestPause ≤ client.lapse r before n := by
  induction n with
  | zero => rw [Nat.zero_mul]; exact Nat.zero_le _
  | succ n ih =>
    have hPause := client.shortestPause_le_pause n
    rw [lapse, Nat.add_mul, Nat.one_mul]
    omega

theorem lapse_le_lapse {k : Nat} (h : k ≤ n) : client.lapse r before k ≤ client.lapse r before n := by
  induction h with
  | refl => exact Nat.le_refl _
  | step _ ih => exact Nat.le_trans ih (by rw [lapse]; omega)

theorem Persists.of_le {k : Nat} (h : client.Persists r before n) (hLe : k ≤ n) :
    client.Persists r before k :=
  ⟨fun i hi => h.mayPass i (Nat.lt_of_lt_of_le hi hLe), Nat.le_trans (lapse_le_lapse hLe) h.inTime⟩

/-- A client that has asked again so often has paused as often, within its patience. -/
theorem Persists.mul_le (h : client.Persists r before n) :
    n * client.config.shortestPause ≤ client.config.patience :=
  Nat.le_trans (client.le_lapse r before n) h.inTime

/-- There is a last time. -/
theorem exists_last (client : Client) (r : Network.Request) (before : List Network.Request) :
    ∃ n, client.Persists r before n ∧ ¬ client.Persists r before (n + 1) := by
  by_contra hNone
  simp only [not_exists, not_and, not_not] at hNone
  have hAll (n : Nat) : client.Persists r before n := by
    induction n with
    | zero => exact ⟨fun k hk => absurd hk (Nat.not_lt_zero k), Nat.zero_le _⟩
    | succ n ih => exact hNone n ih
  have hMany := (hAll (client.config.patience + 1)).mul_le
  have hPause : 1 ≤ client.config.shortestPause := Nat.le_max_left _ _
  have := Nat.mul_le_mul_left (client.config.patience + 1) hPause
  omega

theorem attemptOf_of_mayPass {u : Url} (h : client.MayPass arrival) :
    ∃ e, client.attemptOf u arrival = .transient e := by
  have hBusy {status : Nat} (hStatus : status ∈ busyStatuses) (read : Attempt) :
      ∃ e, (Attempt.ofStatus client.config.timeout arrival status read).1 = .transient e := by
    obtain ⟨e, hFailure⟩ : ∃ e, transientFailure? status = some e :=
      Option.ne_none_iff_exists'.mp fun hNone => transientFailure?_eq_none_iff.mp hNone hStatus
    exact ⟨e, by rw [Attempt.ofStatus, hFailure]⟩
  rw [attemptOf, Attempt.ofArrival]
  split
  · exact ⟨_, rfl⟩
  · rename_i hInTime
    have hStatus := ((client.mayPass_iff arrival).mp h).resolve_left hInTime
    cases hReply : arrival.reply with
    | unreachable causes | broken causes => exact ⟨_, rfl⟩
    | answered response => exact hBusy (hStatus response.status (by rw [hReply]; rfl)) _
    | cutOff status causes => exact hBusy (hStatus status (by rw [hReply]; rfl)) _

theorem now_of_attempt {e : TransportFailure} {after : Log} (h : isSendable r.url.scheme)
    (hAttempt : client.attempt r log = (.transient e, after)) :
    after.now = log.now + client.wait (client.network log.sent r) := by
  rw [attempt, if_neg (by simp [h])] at hAttempt
  cases hEnded : Attempt.ofArrival client.config.timeout r.url (client.network log.sent r) with
  | mk ended time =>
    rw [hEnded] at hAttempt
    cases hAttempt
    rw [wait, ← (ofArrival_eq_transient hEnded).2]

/-- What the client has done when it sends a request that was sent so many times already. -/
def resumed (client : Client) (r : Network.Request) (log : Log) (n : Nat) : Log :=
  { sent := log.sent ++ List.replicate n r, now := log.now + client.lapse r log.sent n }

/-- What is left to do then. -/
def remaining (client : Client) (r : Network.Request) (log : Log) (n : Nat) :
    Except TransportFailure Network.Response × Log :=
  client.insist r (log.now + client.config.patience) (client.intervalAt n) n (client.resumed r log n)

/-- Every further attempt meets the next answer of the network. -/
theorem attempt_resumed (h : isSendable r.url.scheme) (log : Log) (n : Nat) :
    (client.attempt r (client.resumed r log n)).1 =
        client.attemptOf r.url (client.answerAt r log.sent n) ∧
      (client.attempt r (client.resumed r log n)).2.sent =
        log.sent ++ List.replicate (n + 1) r ∧
      ∀ e after, client.attempt r (client.resumed r log n) = (.transient e, after) →
        after.now + pause (client.intervalAt n) (client.chance n) =
          log.now + client.lapse r log.sent (n + 1) := by
  obtain ⟨hResult, hSent⟩ := client.attempt_of_sendable h (client.resumed r log n)
  refine ⟨hResult, ?_, fun e after hAttempt => ?_⟩
  · rw [hSent, resumed, List.append_assoc, ← List.replicate_succ']
  · simp only [now_of_attempt h hAttempt, lapse, answerAt, resumed]
    omega

/-- A request that persists is sent again. -/
theorem remaining_succ (h : isSendable r.url.scheme) (hAgain : client.Persists r log.sent (n + 1)) :
    client.remaining r log n = client.remaining r log (n + 1) := by
  obtain ⟨hResult, hSent, hNow⟩ := client.attempt_resumed h log n
  obtain ⟨e, hFailure⟩ := attemptOf_of_mayPass (u := r.url) (hAgain.mayPass n (Nat.lt_succ_self n))
  have hTime := hAgain.inTime
  rw [remaining, insist]
  split
  · simp_all
  · simp_all
  · rename_i e' after hAttempt
    replace hNow := hNow e' after hAttempt
    rw [hAttempt] at hSent
    dsimp only at hSent ⊢
    have hPause : 1 ≤ pause (client.intervalAt n) (client.chance n) := Nat.le_max_left _ _
    have hLater : (client.resumed r log n).now <
        after.now + pause (client.intervalAt n) (client.chance n) := by
      simp only [hNow, resumed, lapse]
      omega
    rw [if_pos ⟨hLater, by omega⟩, remaining, resumed, hNow, hSent, intervalAt]

/-- A request that does not persist is not sent again. -/
theorem sent_remaining (h : isSendable r.url.scheme)
    (hNow : client.Persists r log.sent n) (hLast : ¬ client.Persists r log.sent (n + 1)) :
    (client.remaining r log n).2.sent = log.sent ++ List.replicate (n + 1) r := by
  obtain ⟨hResult, hSent, hTime⟩ := client.attempt_resumed h log n
  rw [remaining, insist]
  split
  · simp_all
  · simp_all
  · rename_i e after hAttempt
    replace hTime := hTime e after hAttempt
    rw [hAttempt] at hResult hSent
    dsimp only at hSent ⊢
    rw [if_neg, hSent]
    rintro ⟨-, hWithin⟩
    refine hLast ⟨fun k hk => ?_, by omega⟩
    obtain rfl | hk := Nat.eq_or_lt_of_le (Nat.le_of_lt_succ hk)
    · exact mayPass_of_transient hResult.symm
    · exact hNow.mayPass k hk

/-- A request is sent so many times and once more exactly if it persists for so many times. -/
theorem insist_sent (h : isSendable r.url.scheme) (log : Log) :
    ∃ count, (client.insist r (log.now + client.config.patience) client.config.initialPause 0
        log).2.sent = log.sent ++ List.replicate count r ∧
      ∀ n, n < count ↔ client.Persists r log.sent n := by
  obtain ⟨last, hPersists, hLast⟩ := client.exists_last r log.sent
  have hRemaining : client.remaining r log 0 = client.remaining r log last := by
    have hSteps (n : Nat) (hn : n ≤ last) : client.remaining r log 0 = client.remaining r log n := by
      induction n with
      | zero => rfl
      | succ n ih => exact (ih (Nat.le_of_succ_le hn)).trans (remaining_succ h (hPersists.of_le hn))
    exact hSteps last (Nat.le_refl _)
  have hStart : client.resumed r log 0 = log := by
    rw [resumed, lapse, List.replicate_zero, List.append_nil, Nat.add_zero]
  rw [remaining, hStart] at hRemaining
  refine ⟨last + 1, ?_, fun n => ⟨fun hn => ?_, fun hn => ?_⟩⟩
  · rw [← sent_remaining h hPersists hLast, ← hRemaining]
    rfl
  · exact hPersists.of_le (Nat.le_of_lt_succ hn)
  · by_contra hMore
    exact hLast (hn.of_le (Nat.le_of_not_lt hMore))

/-- The request is sent as often as the client persists. -/
theorem execute_sent (client : Client) (h : isSendable r.url.scheme) (log : Log) :
    ∃ count, (client.execute true r log).2.sent = log.sent ++ List.replicate count r ∧
      ∀ n, n < count ↔ client.Persists r log.sent n := by
  rw [execute]
  split
  · exact insist_sent h log
  · rename_i hOnce
    refine ⟨1, ?_, fun n => ?_⟩
    · have hSent := (client.attempt_of_sendable h log).2
      rw [List.replicate_one]
      split <;> simpa only [*] using hSent
    · -- Without retries there is no time for a pause.
      have hNone : client.config.maxRetries = 0 := by simpa using hOnce
      have hPause : 1 ≤ client.config.shortestPause := Nat.le_max_left _ _
      rw [Nat.lt_one_iff]
      constructor
      · rintro rfl
        exact ⟨fun k hk => absurd hk (Nat.not_lt_zero k), Nat.zero_le _⟩
      · intro hPersists
        have hTime := hPersists.mul_le
        rw [Config.patience, hNone, Nat.mul_zero, Nat.le_zero, Nat.mul_eq_zero] at hTime
        omega

section Calls

variable {ε α : Type} {lift : TransportFailure → ε} {interpret : Network.Response → Except ε α}
  {request : Except ε Network.Request} {after : Log} {posts : List Network.Request}

/-- Whether the request of a call can be sent, and is sent once more after so many times. -/
def Repeats (client : Client) (request : Except ε Network.Request) (before : List Network.Request)
    (n : Nat) : Prop :=
  ∃ r, request = .ok r ∧ isSendable r.url.scheme = true ∧ client.Persists r before n

theorem call_sent (client : Client) (lift : TransportFailure → ε)
    (request : Except ε Network.Request) (interpret : Network.Response → Except ε α) (log : Log) :
    ∃ posts, (client.call true lift request interpret log).2.sent = log.sent ++ posts ∧
      (∀ post ∈ posts, request = .ok post) ∧
      ∀ n, n < posts.length ↔ client.Repeats request log.sent n := by
  have hNone (hUnsent : ∀ r, request = .ok r → isSendable r.url.scheme = false) (n : Nat) :
      n < ([] : List Network.Request).length ↔ client.Repeats request log.sent n := by
    refine iff_of_false (Nat.not_lt_zero n) ?_
    rintro ⟨r, hMade, hSendable, -⟩
    rw [hUnsent r hMade] at hSendable
    cases hSendable
  cases request with
  | error e => exact ⟨[], (List.append_nil _).symm, by simp, hNone (by simp)⟩
  | ok r =>
    cases hScheme : isSendable r.url.scheme with
    | false =>
      refine ⟨[], ?_, by simp, hNone fun r' hSame => Except.ok.inj hSame ▸ hScheme⟩
      rw [call, client.execute_of_not_sendable hScheme, List.append_nil]
    | true =>
      obtain ⟨count, hSent, hCount⟩ := client.execute_sent hScheme log
      refine ⟨List.replicate count r, ?_, fun post hPost => ?_, fun n => ?_⟩
      · rw [call]
        split <;> simpa only [*] using hSent
      · rw [List.eq_of_mem_replicate hPost]
      · rw [List.length_replicate, hCount]
        constructor
        · exact fun hPersists => ⟨r, rfl, hScheme, hPersists⟩
        · rintro ⟨r', hSame, -, hPersists⟩
          rwa [Except.ok.inj hSame]

/-- How many requests a call adds that only reads: more than one and the configured number exactly if
so many answers are failures that may pass and there is still time; no more than there is time for
pauses; and no more than one and the configured number if every answer takes as long as it may. -/
structure SentFor (client : Client) (request : Except ε Network.Request) (log after : Log)
    (posts : List Network.Request) : Prop where
  sent : after.sent = log.sent ++ posts
  made : ∀ post ∈ posts, request = .ok post
  beyond_iff : client.config.maxRetries + 1 < posts.length ↔
    client.Repeats request log.sent (client.config.maxRetries + 1)
  paused : (posts.length - 1) * client.config.shortestPause ≤ client.config.patience
  slow : (∀ r, request = .ok r → ∀ k,
      client.config.timeout ≤ (client.answerAt r log.sent k).delay) →
    posts.length ≤ client.config.maxRetries + 1

/-- Late answers take all of the time that is set for them. -/
theorem Persists.le_maxRetries (h : client.Persists r before n)
    (hLate : ∀ k, client.config.timeout ≤ (client.answerAt r before k).delay) :
    n ≤ client.config.maxRetries := by
  have hLapse (n : Nat) : n * (client.config.timeout + 1) ≤ client.lapse r before n := by
    induction n with
    | zero => rw [Nat.zero_mul]; exact Nat.zero_le _
    | succ n ih =>
      have hPause : 1 ≤ pause (client.intervalAt n) (client.chance n) := Nat.le_max_left _ _
      have hWait : client.wait (client.answerAt r before n) = client.config.timeout :=
        Nat.min_eq_left (hLate n)
      rw [lapse, hWait, Nat.add_mul, Nat.one_mul]
      omega
  by_contra hMore
  have hTime := Nat.le_trans (hLapse n) h.inTime
  have hMany : (client.config.maxRetries + 1) * (client.config.timeout + 1) ≤
      n * (client.config.timeout + 1) :=
    Nat.mul_le_mul_right _ (Nat.lt_of_not_le hMore)
  rw [Config.patience] at hTime
  have hEach : (client.config.maxRetries + 1) * (client.config.timeout + 1) =
      client.config.timeout * client.config.maxRetries + client.config.maxRetries +
        client.config.timeout + 1 := by
    ring
  omega

theorem exists_sentFor (client : Client) (lift : TransportFailure → ε)
    (request : Except ε Network.Request) (interpret : Network.Response → Except ε α) (log : Log) :
    ∃ posts, client.SentFor request log (client.call true lift request interpret log).2 posts := by
  obtain ⟨posts, hSent, hMade, hCount⟩ := client.call_sent lift request interpret log
  refine ⟨posts, hSent, hMade, hCount _, ?_, fun hLate => ?_⟩
  · by_cases hNone : posts.length = 0
    · rw [hNone, Nat.zero_sub, Nat.zero_mul]
      exact Nat.zero_le _
    · obtain ⟨r, -, -, hPersists⟩ := (hCount (posts.length - 1)).mp (by omega)
      exact hPersists.mul_le
  · by_contra hMore
    obtain ⟨r, hRequest, -, hPersists⟩ := (hCount _).mp (Nat.lt_of_not_le hMore)
    have := hPersists.le_maxRetries (hLate r hRequest)
    omega

end Calls

/-- Fetching a challenge and asking for its outcome send more requests than one and the configured
number of retries exactly if so many answers in a row are failures that may pass and the answers and
the pauses between them have not used up the time, which is so many times the time that one request
may take. -/
theorem repeated_beyond_retries_iff (client : Client) (challengeId : String) (log : Log) :
    (∃ posts, client.SentFor (client.addressing "GET" challengeId none) log
        (client.fetch challengeId log).2 posts) ∧
      ∃ posts, client.SentFor (client.polling challengeId) log (client.poll challengeId log).2
        posts := by
  obtain ⟨fetched, hFetch⟩ := client.exists_sentFor .transport
    (client.addressing "GET" challengeId none)
    (fun response => do
      ((← expect ChallengeMessage.form.decoder response).decode challengeId).mapError .decode) log
  obtain ⟨polled, hPoll⟩ := client.exists_sentFor id (client.polling challengeId)
    (fun response => .ok (Outcome.ofResponse response.status response.body)) log
  exact ⟨⟨fetched, hFetch⟩, ⟨polled, hPoll⟩⟩

end Client

/-- A client that is to try once more, at a place where nobody listens. -/
def unheardClient : Client where
  config :=
    { baseUrl := { scheme := "http", host := some (.domain "localhost"), path := .segments [""] }
      maxRetries := 1 }
  network := .unreachable
  chance := fun _ => 0

/-- It sends more than two requests. -/
theorem unheardClient_overruns :
    ¬ (unheardClient.poll "c1" {}).2.sent.length ≤ unheardClient.config.maxRetries + 1 := by
  obtain ⟨posts, hSent, -, hCount⟩ := unheardClient.call_sent id (unheardClient.polling "c1")
    (fun response => .ok (Outcome.ofResponse response.status response.body)) {}
  have hRepeats : unheardClient.Repeats (unheardClient.polling "c1") [] 2 :=
    ⟨_, rfl, rfl, fun k _ => .inl (.inr (.inl ⟨_, rfl⟩)), by decide⟩
  have hMore : 2 < posts.length := (hCount 2).mpr hRepeats
  have hAll : (unheardClient.poll "c1" {}).2.sent = posts := hSent
  rw [hAll, Nat.not_le]
  exact hMore

end RemoteSigning.RelyingParty
