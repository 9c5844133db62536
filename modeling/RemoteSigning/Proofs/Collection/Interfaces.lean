import RemoteSigning.Proofs.Collection.Tasks

/-!
# The three ways to collect

Outcomes can be asked for one by one, received from a task, or collected for the sake of the last
one. A task works ahead of its owner, but by no more than what a settled task has done without the
passing of time: an owner that receives back to back finds a task that is as good as one that is
about to begin the next turn. So it receives what the calls of `next` would have given, at the same
instants.
-/

namespace RemoteSigning.Collection

variable {source : Source} {r : Course} {t t' : Task} {o : Outcome}

namespace Course

/-- A task that has taken the turns of a course and is about to begin the next one. -/
def task (r : Course) (channel : Option Outcome) : Task :=
  { now := r.now, phase := .resting r.collection, channel, sent := r.requests }

/-- The task when it has begun the next turn. -/
def turning (source : Source) (r : Course) (channel : Option Outcome) : Task :=
  { r.task channel with phase := .turning (r.turn source) }

theorem task_taken (r : Course) (turn : Turn) (channel : Option Outcome) :
    (r.taken turn).task channel =
      { now := turn.doneAt, phase := .resting turn.collection, channel
        sent := r.requests ++ turn.request.toList } := by
  rw [task, requests_taken]
  rfl

/-- A task between two turns begins the next one by itself. -/
theorem settle_task (hFree : r.collection.isStuck = false) (channel : Option Outcome) :
    (r.task channel).settle source = (r.turning source channel).settle source :=
  (Task.Step.begun rfl hFree).settle_eq

/-- The turn of a finished collection takes no time and gives nothing. -/
theorem turn_of_finished (source : Source) (h : r.collection.finished = true) : r.turn source =
    { result := none, request := none, doneAt := r.now, collection := r.collection } := by
  simp [turn, Collection.next, h]

/-- Every turn of a collection that goes on gives an outcome. -/
theorem exists_result_of_running (source : Source) (h : r.collection.finished = false) :
    ∃ o, (r.turn source).result = some o := by
  refine Option.ne_none_iff_exists'.mp fun hNone => ?_
  cases h.symm.trans ((made_turn source r).result_eq_none_iff.mp hNone)

/-- A finished collection ends its task. -/
theorem settle_task_of_finished (source : Source) (h : r.collection.finished = true)
    (channel : Option Outcome) :
    (r.task channel).settle source = { r.task channel with phase := .ended } := by
  have hFree : r.collection.isStuck = false := by simp [isStuck, h]
  have hOver := turn_of_finished source h
  have hDue : (r.turn source).doneAt ≤ r.now := Nat.le_of_eq (by rw [hOver])
  have hClosed : (r.turning source channel).settle source = _ :=
    Task.Step.settle_eq (.closed rfl hDue (by rw [hOver]))
  rw [settle_task hFree, hClosed, Task.Idle.settle_eq (.ended rfl), hOver]
  simp [turning, task]

/-- When a turn has given its outcome, the next one begins. -/
theorem settle_turning (hResult : (r.turn source).result = some o) :
    ({ r.turning source none with now := (r.turn source).doneAt } : Task).settle source =
      ((r.taken (r.turn source)).task (some o)).settle source := by
  rw [task_taken]
  exact Task.Step.settle_eq (.filled rfl (Nat.le_refl _) hResult rfl)

/-- A turn may take no time. -/
theorem settle_task_of_done (hFree : r.collection.isStuck = false)
    (hResult : (r.turn source).result = some o) (hDone : r.now = (r.turn source).doneAt) :
    (r.task none).settle source = ((r.taken (r.turn source)).task (some o)).settle source := by
  rw [settle_task hFree, ← settle_turning hResult, ← hDone]
  rfl

/-- A task is not ahead of the course by more than an outcome that it holds: when the channel is
emptied, it is where it would be had the channel been empty all along. -/
theorem settle_emptied (hFree : r.collection.isStuck = false) (x : Outcome) :
    ({ (r.task (some x)).settle source with channel := none } : Task).settle source =
      (r.task none).settle source := by
  cases hFinished : r.collection.finished with
  | true =>
      rw [settle_task_of_finished source hFinished, settle_task_of_finished source hFinished]
      exact Task.Idle.settle_eq (.ended rfl)
  | false =>
      obtain ⟨o, hResult⟩ := exists_result_of_running source hFinished
      rcases Nat.lt_or_eq_of_le (made_turn source r).within.1 with hEarly | hDone
      · rw [settle_task hFree, settle_task hFree,
          Task.Idle.settle_eq (t := r.turning source (some x)) (.waiting rfl hEarly)]
        rfl
      · -- The task holds the outcome of the turn until there is room.
        have hHeld : (r.turning source (some x)).settle source = _ :=
          Task.Step.settle_eq (.held rfl (Nat.le_of_eq hDone.symm) hResult rfl)
        have hBlocked := hHeld.trans (Task.Idle.settle_eq (.blocked rfl rfl))
        rw [settle_task hFree, hBlocked, settle_task_of_done hFree hResult hDone,
          (Task.Step.released rfl rfl).settle_eq, task_taken, ← hDone]
        rfl

/-- What the owner of an empty channel receives depends only on what the task has settled to. -/
theorem receive_congr (hRoom : t.channel = none) (hRoom' : t'.channel = none)
    (h : t.settle source = t'.settle source) : t.receive source = t'.receive source := by
  have hAwait : t.awaitWithin source Task.turnsAhead = t'.awaitWithin source Task.turnsAhead := by
    rw [Task.turnsAhead, Task.awaitWithin, Task.awaitWithin, h]
  simp [Task.receive, hRoom, hRoom', hAwait]

/-- The owner waits until the turn ends. -/
theorem awaitWithin_task (hFree : r.collection.isStuck = false)
    (hResult : (r.turn source).result = some o) (n : Nat) :
    (r.task none).awaitWithin source (n + 2) =
      ((r.taken (r.turn source)).task (some o)).settle source := by
  have hFull : (((r.taken (r.turn source)).task (some o)).settle source).channel = some o :=
    Task.channel_settle rfl
  rcases Nat.lt_or_eq_of_le (made_turn source r).within.1 with hEarly | hDone
  · -- The task wakes when the turn ends, and then puts the outcome into the channel.
    have hWaits : (r.task none).settle source = r.turning source none :=
      (settle_task hFree none).trans (Task.Idle.settle_eq (.waiting rfl hEarly))
    have hWakes : ({ (r.task none).settle source with now := (r.turn source).doneAt } : Task).settle
        source = ((r.taken (r.turn source)).task (some o)).settle source := by
      rw [hWaits]
      exact settle_turning hResult
    rw [Task.awaitWithin_of_wakesAt (w := (r.turn source).doneAt) (by rw [hWaits]; rfl)
      (by rw [hWaits]; rfl), Task.awaitWithin_of_channel (by rw [hWakes, hFull]), hWakes]
  · have hSettled := settle_task_of_done hFree hResult hDone
    rw [Task.awaitWithin_of_channel (by rw [hSettled, hFull]), hSettled]

/-- From a task that is about to begin a turn the owner receives the outcome of the turn, when the
turn ends. -/
theorem receive_task (hFree : r.collection.isStuck = false) :
    (r.task none).receive source = ((r.turn source).result,
      { ((r.taken (r.turn source)).task (r.turn source).result).settle source with
        channel := none }) := by
  cases hFinished : r.collection.finished with
  | true =>
      have hOver := turn_of_finished source hFinished
      have hEnded : (r.task none).awaitWithin source Task.turnsAhead =
          { r.task none with phase := .ended } := by
        have hSettled := settle_task_of_finished source hFinished none
        rw [Task.turnsAhead, Task.awaitWithin_of_asleep (by rw [hSettled]; rfl), hSettled]
      rw [Task.receive, if_neg (by simp [task]), hEnded, hOver,
        settle_task_of_finished source (by exact hFinished), task_taken]
      simp [task]
  | false =>
      obtain ⟨o, hResult⟩ := exists_result_of_running source hFinished
      have hFull : (((r.taken (r.turn source)).task (some o)).settle source).channel = some o :=
        Task.channel_settle rfl
      rw [Task.receive, if_neg (by simp [task]), Task.turnsAhead, awaitWithin_task hFree hResult,
        hResult, hFull]

/-- A task whose owner has received all that a course has given, as soon as it was given. -/
structure Abreast (source : Source) (r : Course) (t : Task) : Prop where
  interval_pos : 0 < r.collection.interval
  room : t.channel = none
  settle_eq : t.settle source = (r.task none).settle source
  sent : r.collection.finished = true → t.requests = r.requests

/-- The owner receives what the next call of `next` gives, at the same instant. -/
theorem Abreast.receive (h : Abreast source r t) :
    (t.receive source).1 = (r.turn source).result ∧
      (t.receive source).2.now = (r.turn source).doneAt ∧
      Abreast source (r.taken (r.turn source)) (t.receive source).2 := by
  have hFree := isStuck_eq_false h.interval_pos
  have hInterval : 0 < (r.taken (r.turn source)).collection.interval :=
    (made_turn source r).interval_eq ▸ h.interval_pos
  have hReceive := (receive_congr h.room rfl h.settle_eq).trans (receive_task hFree)
  rw [hReceive]
  refine ⟨rfl, Task.now_settle .., hInterval, rfl, ?_, fun hFinished => ?_⟩
  · cases hResult : (r.turn source).result with
    | some o => exact settle_emptied (isStuck_eq_false hInterval) o
    | none =>
        have hFinished : (r.taken (r.turn source)).collection.finished = true := by
          have hOver := (made_turn source r).result_eq_none_iff.mp hResult
          rw [turn_of_finished source hOver]
          exact hOver
        rw [settle_task_of_finished source hFinished]
        exact Task.Idle.settle_eq (.ended rfl)
  · rw [settle_task_of_finished source hFinished]
    rfl

/-- What the calls of `next` gave, and when. -/
def log (r : Course) : List (Option Outcome × Nat) := r.turns.map fun t => (t.result, t.doneAt)

/-- A turn adds one entry to the log, with the instant at which it was over. -/
theorem log_taken (r : Course) (turn : Turn) :
    (r.taken turn).log = r.log ++ [(turn.result, turn.doneAt)] :=
  List.map_append

/-- After any number of turns, the task that was received from and the collection that was called
are abreast. -/
theorem abreast_run (k : Collector) (challengeId : String) (hInterval : 0 < k.interval)
    (now n : Nat) :
    let r := (start (k.poll challengeId) now).run k.source (List.replicate n .next)
    let o := ({ task := k.spawn challengeId now } : Owner).run k.source (List.replicate n .receive)
    o.received = r.log ∧ Abreast k.source r o.task := by
  induction n with
  | zero => exact ⟨rfl, hInterval, rfl, rfl, fun hFinished => nomatch hFinished⟩
  | succ n ih =>
      obtain ⟨hReceived, hAbreast⟩ := ih
      obtain ⟨hResult, hNow, hNext⟩ := hAbreast.receive
      rw [List.replicate_succ', run_append, List.replicate_succ', Owner.run_append]
      refine ⟨?_, hNext⟩
      simp only [run_cons, run_nil, step, log_taken, ← hReceived, ← hResult, ← hNow]
      rfl

/-- The outcomes that were given, and when. -/
def given (r : Course) : List (Outcome × Nat) :=
  r.turns.filterMap fun t => t.result.map (·, t.doneAt)

/-- A turn adds what it gives, if it gives anything. -/
theorem given_taken (r : Course) (turn : Turn) :
    (r.taken turn).given = r.given ++ (turn.result.map (·, turn.doneAt)).toList := by
  cases hResult : turn.result <;> simp [given, taken, hResult]

theorem map_given (r : Course) : r.given.map Prod.fst = r.results := by
  simp [given, results, List.map_filterMap, Option.map_map, Function.comp_def]

/-- What a course comes to that began at `began`. -/
def summary (began : Nat) (r : Course) : Summary :=
  let (outcome, doneAt) := r.given.getLast?.getD (.pending, began)
  { outcome, requests := r.requests, doneAt }

/-- The summary after a turn counts it in. -/
theorem summary_taken (began : Nat) (r : Course) {turn : Turn} (hResult : turn.result = some o) :
    (r.taken turn).summary began = (r.summary began).add turn := by
  simp [summary, Summary.add, given_taken, hResult]

/-- Calling a finished collection gives nothing more. -/
theorem given_run_of_finished (h : r.collection.finished = true) (n : Nat) :
    (r.run source (List.replicate n .next)).given = r.given := by
  induction n generalizing r with
  | zero => rfl
  | succ n ih =>
      rw [List.replicate_succ, run_cons, step, turn_of_finished source h]
      refine (ih (by exact h)).trans ?_
      rw [given_taken]
      exact List.append_nil _

/-- Asking a finished collection adds nothing. -/
theorem summary_run_of_finished (h : r.collection.finished = true) (began n : Nat) :
    (r.run source (List.replicate n .next)).summary began = r.summary began := by
  rw [summary, given_run_of_finished h, (run_of_finished source h _).2.2]
  rfl

theorem asked_eq (r : Course) (turn : Turn) :
    turn.asked r.requests.length = (r.taken turn).requests.length := by
  cases hRequest : turn.request <;> simp [Turn.asked, hRequest]

/-- The turns of a collection that is called as soon as it has returned are those of the course. -/
theorem foldl_run (began n : Nat) (r : Course) :
    (r.collection.run source n r.requests.length r.now).foldl Summary.add (r.summary began) =
      (r.run source (List.replicate n .next)).summary began := by
  induction n generalizing r with
  | zero => rfl
  | succ n ih =>
      have hRun : r.collection.run source (n + 1) r.requests.length r.now =
          if (r.turn source).result.isNone then []
          else r.turn source :: (r.taken (r.turn source)).collection.run source n
            (r.taken (r.turn source)).requests.length (r.taken (r.turn source)).now := by
        rw [← asked_eq]
        rfl
      rw [hRun]
      cases hResult : (r.turn source).result with
      | none =>
          have hFinished := (made_turn source r).result_eq_none_iff.mp hResult
          exact (summary_run_of_finished hFinished began (n + 1)).symm
      | some o =>
          rw [List.replicate_succ, run_cons, step, ← ih, summary_taken began r hResult]
          rfl

/-- Collecting sums up what calling `next` that often gives. -/
theorem collect_eq_summary (k : Collector) (challengeId : String) (n now : Nat) :
    k.collect challengeId n now =
      ((start (k.poll challengeId) now).run k.source (List.replicate n .next)).summary now :=
  foldl_run now n (start (k.poll challengeId) now)

/-- The three ways to collect agree. An owner that receives back to back gets from the task of a
collector what calls of `next` give, at the same instants. Once these have come to the end, nothing
more can be received, the task has sent the same requests at the same instants, and collecting for
at least as many turns gives the last outcome at its instant, with the same requests. -/
theorem interfaces_agree (k : Collector) (challengeId : String) (hInterval : 0 < k.interval)
    (now n : Nat) :
    let pulled := (start (k.poll challengeId) now).run k.source (List.replicate n .next)
    let pushed :=
      ({ task := k.spawn challengeId now } : Owner).run k.source (List.replicate n .receive)
    pushed.received = pulled.log ∧
    ((pulled.turn k.source).result = none →
      (pushed.task.receive k.source).1 = none ∧ pushed.task.requests = pulled.requests ∧
      ∀ m, n ≤ m → let s := k.collect challengeId m now
        pulled.given.getLast? = some (s.outcome, s.doneAt) ∧ s.requests = pulled.requests) := by
  intro pulled pushed
  obtain ⟨hReceived, hAbreast⟩ := abreast_run k challengeId hInterval now n
  refine ⟨hReceived, fun hOver => ?_⟩
  have hFinished : pulled.collection.finished = true :=
    (made_turn k.source pulled).result_eq_none_iff.mp hOver
  refine ⟨hAbreast.receive.1.trans hOver, hAbreast.sent hFinished, fun m hLonger => ?_⟩
  have hSummary : k.collect challengeId m now = pulled.summary now := by
    obtain ⟨more, rfl⟩ := Nat.exists_eq_add_of_le hLonger
    rw [collect_eq_summary, ← List.replicate_append_replicate, run_append]
    exact summary_run_of_finished hFinished now more
  obtain ⟨last, hLast, -⟩ :=
    (accounted_run k.source rfl rfl now (List.replicate n .next)).exists_getLast
      (c := k.poll challengeId) hFinished (by simp)
  have hGiven : ∃ x, pulled.given.getLast? = some x := by
    refine Option.ne_none_iff_exists'.mp fun hNone => ?_
    rw [← map_given, List.getLast?_map, hNone] at hLast
    cases hLast
  obtain ⟨x, hx⟩ := hGiven
  rw [hSummary]
  refine ⟨?_, rfl⟩
  simp only [summary, hx, Option.getD_some]

/-- A source whose first answer takes so long that the second one comes at the same instant. -/
def bursting : Collector where
  source := .ofScript
    [{ result := .ok .pending, delay := 25 }, { result := .ok .viewed },
      { result := .ok .rejected }]
  interval := 10
  maxDuration := none

/-- The second outcome is held by the task while the first one is in the channel. -/
theorem bursting_agrees :
    let pulled := (start (bursting.poll "c") 0).run bursting.source (List.replicate 3 .next)
    let pushed :=
      ({ task := bursting.spawn "c" 0 } : Owner).run bursting.source (List.replicate 3 .receive)
    0 < bursting.interval ∧
      pulled.log = [(some .pending, 35), (some .viewed, 35), (some .rejected, 45)] ∧
      (pulled.turn bursting.source).result = none ∧
      pushed.received = pulled.log ∧
      (bursting.collect "c" 3 0).outcome = .rejected ∧ (bursting.collect "c" 3 0).doneAt = 45 := by
  intro pulled pushed
  have hInterval : 0 < bursting.interval := by decide
  have hOver : (pulled.turn bursting.source).result = none := rfl
  obtain ⟨hReceived, hEnded⟩ := interfaces_agree bursting "c" hInterval 0 3
  obtain ⟨-, -, hCollect⟩ := hEnded hOver
  have hLast : pulled.given.getLast? = some (.rejected, 45) := rfl
  obtain ⟨hOutcome, hDone⟩ := Prod.mk.inj (Option.some.inj
    (hLast.symm.trans (hCollect 3 (Nat.le_refl 3)).1))
  exact ⟨hInterval, rfl, hOver, hReceived, hOutcome.symm, hDone.symm⟩

end Course

end RemoteSigning.Collection
