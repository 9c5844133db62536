import RemoteSigning.Proofs.Collection.Courses

/-!
# When a collection asks

The first call of `next` fixes the ticks and the deadline of a collection. From then on requests are
sent at ticks before the deadline, and wait no longer than until it. A collection that is called
again as soon as it has returned comes to its end at most one interval after the deadline, because
every turn that does not end it uses up a tick.
-/

namespace RemoteSigning.Collection

/-- No tick comes before it is due. -/
theorem due_le_tickAt (due now : Nat) : due ≤ tickAt due now := Nat.le_max_left due now

/-- The next tick is due an interval after the last one was due, or later. -/
theorem due_add_le_tickAfter (interval due now : Nat) :
    due + interval ≤ tickAfter interval due now := by
  unfold tickAfter
  split
  · exact Nat.add_le_add_right (due_le_tickAt due now) interval
  · exact Nat.le_refl _

/-- The next tick is due no more than an interval after the last one came. -/
theorem tickAfter_le (interval due now : Nat) :
    tickAfter interval due now ≤ tickAt due now + interval := by
  unfold tickAfter
  split
  · exact Nat.le_refl _
  · exact Nat.add_le_add_right (due_le_tickAt due now) interval

/-- A tick may be late by the tolerance without a delay of the ones after it. -/
theorem tickAt_add_le_tickAfter (interval due now : Nat) :
    tickAt due now + interval ≤ tickAfter interval due now + tolerance := by
  unfold tickAfter
  split <;> omega

variable {source : Source} {asked now : Nat} {c : Collection} {t : Turn}

/-- A request is sent at a tick before the deadline, and its turn ends by the deadline. -/
theorem Made.of_request (h : Made source asked now c t) {q : Request} (hq : q ∈ t.request) :
    c.finished = false ∧ ∃ due deadline, c.scheduleAt now = (due, deadline) ∧
      q.sentAt = tickAt due now ∧ ∀ d ∈ deadline, q.sentAt < d ∧ t.doneAt ≤ d := by
  cases h with
  | spent finished => cases hq
  | late running scheduled up => cases hq
  | cut running scheduled inTime slow =>
      obtain rfl := Option.mem_some_iff.mp hq
      refine ⟨running, _, _, scheduled, rfl, fun d hd => ?_⟩
      obtain rfl := Option.mem_some_iff.mp hd
      exact ⟨inTime, Nat.le_refl _⟩
  | answered running scheduled inTime =>
      obtain rfl := Option.mem_some_iff.mp hq
      exact ⟨running, _, _, scheduled, rfl, inTime⟩

/-- A collection goes on only after a request, with the tick after the one of the request. -/
theorem Made.of_running (h : Made source asked now c t) (hRunning : t.collection.finished = false) :
    c.finished = false ∧ ∃ due deadline, c.scheduleAt now = (due, deadline) ∧
      t.collection.schedule = some (tickAfter c.interval due now, deadline) ∧
      t.request = some { challengeId := c.challengeId, sentAt := tickAt due now } ∧
      tickAt due now ≤ t.doneAt := by
  cases h with
  | spent finished => cases finished.symm.trans hRunning
  | late => cases hRunning
  | cut => cases hRunning
  | answered running scheduled inTime =>
      exact ⟨running, _, _, scheduled, rfl, rfl, Nat.le_add_right _ _⟩

namespace Course

variable {r : Course} {interval began limit n : Nat} {maxDuration : Option Nat} {calls : List Call}

/-- Requests keep to the interval and the limit of a collection that was first called at `began`. -/
structure OnTime (interval : Nat) (maxDuration : Option Nat) (began : Nat) (r : Course) : Prop where
  window : ∀ limit ∈ maxDuration, ∀ t ∈ r.turns, ∀ q ∈ t.request,
    q.sentAt < began + limit ∧ t.doneAt ≤ began + limit
  first : ∀ q ∈ r.requests, began + interval ≤ q.sentAt
  spaced : r.requests.Pairwise fun p q => p.sentAt + interval ≤ q.sentAt + tolerance

/-- What the next tick and the deadline have to be for that. -/
structure Due (interval : Nat) (maxDuration : Option Nat) (began : Nat) (r : Course) (due : Nat)
    (deadline : Option Nat) : Prop where
  deadline : deadline = maxDuration.map (began + ·)
  first : began + interval ≤ due
  spaced : ∀ q ∈ r.requests, q.sentAt + interval ≤ due + tolerance

/-- A turn that keeps to what is due keeps the requests on time. -/
theorem OnTime.taken (h : OnTime interval maxDuration began r)
    (hDue : ∀ due deadline, r.collection.finished = false →
      r.collection.scheduleAt now = (due, deadline) → Due interval maxDuration began r due deadline)
    (hMade : Made source asked now r.collection t) :
    OnTime interval maxDuration began (r.taken t) := by
  have hRequest : ∀ q ∈ t.request,
      (∀ limit ∈ maxDuration, q.sentAt < began + limit ∧ t.doneAt ≤ began + limit) ∧
      began + interval ≤ q.sentAt ∧
      ∀ p ∈ r.requests, p.sentAt + interval ≤ q.sentAt + tolerance := by
    intro q hq
    obtain ⟨hRunning, due, deadline, hScheduled, hSent, hInTime⟩ := hMade.of_request hq
    obtain ⟨hDeadline, hFirst, hSpaced⟩ := hDue due deadline hRunning hScheduled
    have hTick : due ≤ q.sentAt := hSent ▸ due_le_tickAt due now
    refine ⟨fun limit hLimit => hInTime _ ?_, Nat.le_trans hFirst hTick, fun p hp => ?_⟩
    · rw [hDeadline, Option.mem_def.mp hLimit]
      rfl
    · exact Nat.le_trans (hSpaced p hp) (Nat.add_le_add_right hTick tolerance)
  constructor
  · intro limit hLimit s hs q hq
    rcases List.mem_append.mp hs with hs | hs
    · exact h.window limit hLimit s hs q hq
    · rw [List.mem_singleton.mp hs] at hq ⊢
      exact (hRequest q hq).1 limit hLimit
  · intro q hq
    rw [requests_taken, List.mem_append, Option.mem_toList] at hq
    rcases hq with hq | hq
    · exact h.first q hq
    · exact (hRequest q hq).2.1
  · rw [requests_taken]
    refine List.pairwise_append.mpr ⟨h.spaced, ?_, fun p hp q hq => ?_⟩
    · cases t.request with
      | none => exact .nil
      | some q => exact List.pairwise_singleton _ q
    · exact (hRequest q (Option.mem_toList.mp hq)).2.2 p hp

/-- After a turn that does not end the collection, the next tick is due as it has to be. -/
theorem Due.taken {due : Nat} {deadline : Option Nat}
    (h : Due interval maxDuration began r due deadline)
    (hInterval : r.collection.interval = interval)
    (hScheduled : r.collection.scheduleAt now = (due, deadline))
    (hMade : Made source asked now r.collection t) (hRunning : t.collection.finished = false) :
    ∃ later, t.collection.schedule = some (later, deadline) ∧
      Due interval maxDuration began (r.taken t) later deadline := by
  obtain ⟨-, due', deadline', hScheduled', hSchedule, hRequest, -⟩ := hMade.of_running hRunning
  obtain ⟨rfl, rfl⟩ := Prod.mk.inj (hScheduled.symm.trans hScheduled')
  refine ⟨_, hSchedule, h.deadline, ?_, fun q hq => ?_⟩
  · have hLater := due_add_le_tickAfter r.collection.interval due now
    have hFirst := h.first
    omega
  · rw [requests_taken, hRequest, Option.toList_some, List.mem_append, List.mem_singleton] at hq
    rcases hq with hq | rfl
    · have hLater := due_add_le_tickAfter r.collection.interval due now
      have hSpaced := h.spaced q hq
      omega
    · rw [hInterval]
      exact tickAt_add_le_tickAfter interval due now

/-- A collection that was first called at `began`. -/
structure Timed (interval : Nat) (maxDuration : Option Nat) (began : Nat) (r : Course) : Prop where
  interval_eq : r.collection.interval = interval
  onTime : OnTime interval maxDuration began r
  scheduled : r.collection.finished = false → ∃ due deadline,
    r.collection.schedule = some (due, deadline) ∧ Due interval maxDuration began r due deadline

theorem scheduleAt_of_schedule {due : Nat} {deadline : Option Nat}
    (h : c.schedule = some (due, deadline)) (now : Nat) : c.scheduleAt now = (due, deadline) := by
  rw [scheduleAt, h, Option.getD_some]

theorem Timed.taken (h : Timed interval maxDuration began r)
    (hMade : Made source asked now r.collection t) :
    Timed interval maxDuration began (r.taken t) := by
  refine ⟨hMade.interval_eq.trans h.interval_eq, h.onTime.taken ?_ hMade, fun hRunning => ?_⟩
  · intro due deadline hRunning hScheduled
    obtain ⟨due', deadline', hSchedule, hDue⟩ := h.scheduled hRunning
    obtain ⟨rfl, rfl⟩ := Prod.mk.inj ((scheduleAt_of_schedule hSchedule now).symm.trans hScheduled)
    exact hDue
  · obtain ⟨hBefore, -⟩ := hMade.of_running hRunning
    obtain ⟨due, deadline, hSchedule, hDue⟩ := h.scheduled hBefore
    obtain ⟨later, hLater, hDue'⟩ :=
      hDue.taken h.interval_eq (scheduleAt_of_schedule hSchedule now) hMade hRunning
    exact ⟨later, deadline, hLater, hDue'⟩

/-- However a collection is called, it keeps its time. -/
theorem Timed.run (h : Timed interval maxDuration began r) (calls : List Call) :
    Timed interval maxDuration began (r.run source calls) := by
  induction calls generalizing r with
  | nil => exact h
  | cons call rest ih =>
      apply ih
      cases call with
      | next => exact h.taken (made_turn source r)
      | cancel =>
          have hOnTime : OnTime interval maxDuration began (r.step source .cancel) :=
            ⟨h.onTime.window, h.onTime.first, h.onTime.spaced⟩
          exact ⟨h.interval_eq, hOnTime, fun hRunning => nomatch hRunning⟩
      | wait ms =>
          have hOnTime : OnTime interval maxDuration began (r.step source (.wait ms)) :=
            ⟨h.onTime.window, h.onTime.first, h.onTime.spaced⟩
          refine ⟨h.interval_eq, hOnTime, fun hRunning => ?_⟩
          obtain ⟨due, deadline, hSchedule, hDue⟩ := h.scheduled hRunning
          exact ⟨due, deadline, hSchedule, hDue.deadline, hDue.first, hDue.spaced⟩

/-- The first tick is due an interval after the first call. -/
theorem due_start (k : Collector) (challengeId : String) (began : Nat) :
    Due k.interval k.maxDuration began (start (k.poll challengeId) began) (began + k.interval)
      (k.maxDuration.map (began + ·)) := by
  refine ⟨rfl, Nat.le_refl _, ?_⟩
  simp [start, requests]

/-- The first call of `next` sets the time. -/
theorem timed_first (k : Collector) (challengeId : String) (began : Nat) :
    Timed k.interval k.maxDuration began
      ((start (k.poll challengeId) began).step k.source .next) := by
  have hDue := due_start k challengeId began
  have hMade := made_turn k.source (start (k.poll challengeId) began)
  refine ⟨hMade.interval_eq, ?_, fun hRunning => ?_⟩
  · refine OnTime.taken ⟨?_, ?_, ?_⟩ ?_ hMade
    · simp [start]
    · simp [start, requests]
    · simp [start, requests]
    · intro due deadline hRunning hScheduled
      obtain ⟨rfl, rfl⟩ := Prod.mk.inj hScheduled
      exact hDue
  · obtain ⟨later, hLater, hDue'⟩ := hDue.taken rfl rfl hMade hRunning
    exact ⟨later, _, hLater, hDue'⟩

/-- A collection that was first called at `began` and then each time at once, after `n` calls. While
it goes on, every call has used up a tick before the deadline. -/
structure Prompt (interval limit began n : Nat) (r : Course) : Prop where
  interval_eq : r.collection.interval = interval
  ended : r.collection.finished = true → r.now ≤ began + limit + interval
  running : r.collection.finished = false → r.now ≤ began + limit ∧ n * interval ≤ limit ∧
    ∃ due, r.collection.scheduleAt r.now = (due, some (began + limit)) ∧
      began + (n + 1) * interval ≤ due ∧ due ≤ r.now + interval

/-- Before the first call, no call has used up a tick. -/
theorem prompt_start (k : Collector) (challengeId : String) {limit : Nat}
    (hLimit : k.maxDuration = some limit) (began : Nat) :
    Prompt k.interval limit began 0 (start (k.poll challengeId) began) := by
  refine ⟨rfl, fun hEnded => (nomatch hEnded), fun _ => ⟨Nat.le_add_right _ _, by simp, ?_⟩⟩
  refine ⟨began + k.interval, ?_, by simp, Nat.le_refl _⟩
  simp [start, Collector.poll, scheduleAt, hLimit]

/-- A call that comes at once uses up one tick. -/
theorem Prompt.taken (h : Prompt interval limit began n r)
    (hMade : Made source asked r.now r.collection t) :
    Prompt interval limit began (n + 1) (r.taken t) := by
  refine ⟨hMade.interval_eq.trans h.interval_eq, fun hEnded => ?_, fun hRunning => ?_⟩
  · cases hMade with
    | spent finished => exact h.ended finished
    | @late due deadline running scheduled up =>
        obtain ⟨hNow, -, due', hScheduled, -, hDue⟩ := h.running running
        obtain ⟨rfl, -⟩ := Prod.mk.inj (hScheduled.symm.trans scheduled)
        show tickAt due' r.now ≤ began + limit + interval
        exact Nat.max_le.mpr ⟨by omega, by omega⟩
    | @cut due deadline running scheduled inTime slow =>
        obtain ⟨-, -, due', hScheduled, -, -⟩ := h.running running
        obtain ⟨-, hDeadline⟩ := Prod.mk.inj (hScheduled.symm.trans scheduled)
        obtain rfl := Option.some.inj hDeadline
        exact Nat.le_add_right _ _
    | @answered due deadline running scheduled inTime =>
        obtain ⟨-, -, due', hScheduled, -, -⟩ := h.running running
        obtain ⟨-, rfl⟩ := Prod.mk.inj (hScheduled.symm.trans scheduled)
        exact Nat.le_trans (inTime _ rfl).2 (Nat.le_add_right _ _)
  · obtain ⟨hBefore, due, deadline, hScheduled, hSchedule, hRequest, hDone⟩ :=
      hMade.of_running hRunning
    obtain ⟨hNow, hTicks, due', hScheduled', hFirst, hDue⟩ := h.running hBefore
    obtain ⟨rfl, rfl⟩ := Prod.mk.inj (hScheduled'.symm.trans hScheduled)
    obtain ⟨-, _, _, hAt, -, hInTime⟩ := hMade.of_request (Option.mem_def.mpr hRequest)
    obtain ⟨rfl, rfl⟩ := Prod.mk.inj (hScheduled'.symm.trans hAt)
    obtain ⟨hSent, hEnd⟩ := hInTime _ rfl
    have hTick := due_le_tickAt due' r.now
    have hLater := due_add_le_tickAfter r.collection.interval due' r.now
    have hSoon := tickAfter_le r.collection.interval due' r.now
    rw [h.interval_eq] at hLater hSoon
    have hUsed : began + (n + 1) * interval < began + limit :=
      Nat.lt_of_le_of_lt (Nat.le_trans hFirst hTick) hSent
    refine ⟨hEnd, by omega, tickAfter interval due' r.now, ?_, ?_, ?_⟩
    · rw [← h.interval_eq]
      exact scheduleAt_of_schedule hSchedule _
    · rw [Nat.succ_mul (n + 1)]
      omega
    · show tickAfter interval due' r.now ≤ t.doneAt + interval
      omega

/-- So after any number of calls that many ticks are used up, or the collection has finished. -/
theorem prompt_run (k : Collector) (challengeId : String) {limit : Nat}
    (hLimit : k.maxDuration = some limit) (began n : Nat) :
    Prompt k.interval limit began n
      ((start (k.poll challengeId) began).run k.source (List.replicate n .next)) := by
  induction n with
  | zero => exact prompt_start k challengeId hLimit began
  | succ n ih =>
      rw [List.replicate_succ', run_append]
      exact ih.taken (made_turn ..)

/-- The times of a collection that is first called at `began`. In any course of calls, no request is
sent before the first interval is over, and between two of them lies an interval but for at most 5
ms. If there is a limit, every request is sent before the deadline and answered or given up by it;
and if each call comes as soon as the one before has returned, a terminal outcome has been given at
most one interval after the deadline. -/
theorem asks_on_time (k : Collector) (challengeId : String) (hInterval : 0 < k.interval)
    (began : Nat) (calls : List Call) :
    let r := (start (k.poll challengeId) began).run k.source (.next :: calls)
    (∀ q ∈ r.requests, began + k.interval ≤ q.sentAt) ∧
    (r.requests.Pairwise fun p q => p.sentAt + k.interval ≤ q.sentAt + 5) ∧
    ∀ limit ∈ k.maxDuration,
      (∀ t ∈ r.turns, ∀ q ∈ t.request, q.sentAt < began + limit ∧ t.doneAt ≤ began + limit) ∧
      let n := limit / k.interval + 1
      let r' := (start (k.poll challengeId) began).run k.source (List.replicate n .next)
      (∃ o, r'.results.getLast? = some o ∧ o.isTerminal = true) ∧
      r'.now ≤ began + limit + k.interval := by
  intro r
  have hTimed : Timed k.interval k.maxDuration began r :=
    (timed_first k challengeId began).run calls
  refine ⟨hTimed.onTime.first, hTimed.onTime.spaced, fun limit hLimit => ?_⟩
  refine ⟨hTimed.onTime.window limit hLimit, ?_⟩
  intro n r'
  have hPrompt : Prompt k.interval limit began n r' := prompt_run k challengeId hLimit began n
  -- So many ticks do not fit between the first call and the deadline.
  have hEnded : r'.collection.finished = true := by
    refine (Bool.eq_false_or_eq_true _).resolve_right fun hRunning => ?_
    obtain ⟨-, hTicks, -⟩ := hPrompt.running hRunning
    have hMany : limit < n * k.interval := by
      rw [Nat.mul_comm]
      exact Nat.lt_mul_div_succ limit hInterval
    exact absurd hTicks (Nat.not_le_of_lt hMany)
  have hAccounted : Accounted k.source (k.poll challengeId) (List.replicate n .next) r' :=
    accounted_run k.source rfl rfl began _
  exact ⟨hAccounted.exists_getLast hEnded (by simp), hPrompt.ended hEnded⟩

/-- A source that answers late and then not in time. -/
def sluggish : Collector where
  source := .ofScript
    [{ result := .ok .pending, delay := 14 }, { result := .ok .viewed, delay := 50 }]
  interval := 10
  maxDuration := some 25

/-- The second tick comes 4 ms late, and its request is given up at the deadline. -/
theorem sluggish_on_time :
    let r := (start (sluggish.poll "c") 1000).run sluggish.source (.next :: [.next])
    0 < sluggish.interval ∧ sluggish.maxDuration = some 25 ∧
      r.requests =
        [{ challengeId := "c", sentAt := 1010 }, { challengeId := "c", sentAt := 1024 }] ∧
      r.results = [.pending, .timedOut] ∧
      ∀ t ∈ r.turns, ∀ q ∈ t.request, q.sentAt < 1025 ∧ t.doneAt ≤ 1025 := by
  intro r
  have hInterval : 0 < sluggish.interval := by decide
  obtain ⟨-, -, hLimited⟩ := asks_on_time sluggish "c" hInterval 1000 [.next]
  obtain ⟨hWindow, -⟩ := hLimited 25 (Option.mem_def.mpr rfl)
  exact ⟨hInterval, rfl, rfl, rfl, hWindow⟩

end Course

end RemoteSigning.Collection
