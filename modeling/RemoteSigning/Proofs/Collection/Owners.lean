import RemoteSigning.Proofs.Collection.Tasks

/-!
# What the owner of a task receives

The owner of a task may take its time. Whatever it does, the task keeps behind it a course of the
collection (`Supplied`): what the course has given is what the owner has received, then what is in
the channel, then what the task holds. As the channel has room for one outcome and a task that holds
another one begins no turn, no more than two requests are ahead of the owner (`Paced`).
-/

namespace RemoteSigning.Collection

variable {source : Source} {c : Collection} {r : Course} {t t' : Task} {given : List Outcome}

namespace Task

/-- The outcome that a task has in its hands. -/
def held (t : Task) : Option Outcome :=
  match t.phase with
  | .holding o _ => some o
  | _ => none

end Task

/-- What a task can be doing that has taken the turns of a course. -/
inductive Follows (source : Source) (r : Course) : Phase → Prop where
  | resting : Follows source r (.resting r.collection)
  | turning (now : Nat) :
      Follows source r (.turning (r.collection.next source r.requests.length now))
  | holding (o : Outcome) : Follows source r (.holding o r.collection)
  | ended (finished : r.collection.finished = true) : Follows source r .ended

/-- A course of a collection, never cancelled, whose outcomes are those that the owner of a task has
been given, with those that are still on their way. -/
structure Supplied (source : Source) (c : Collection) (given : List Outcome) (t : Task)
    (r : Course) : Prop where
  settled : Course.Settled c r
  accounted : ∃ calls, Call.cancel ∉ calls ∧ Course.Accounted source c calls r
  phase : Follows source r t.phase
  sent : t.sent = r.requests
  results : r.results = given ++ t.channel.toList ++ t.held.toList

theorem supplied_spawn (source : Source) (hSchedule : c.schedule = none)
    (hFinished : c.finished = false) (now : Nat) :
    Supplied source c [] (.spawn now c) (.start c now) :=
  ⟨Course.settled_start hSchedule now, ⟨[], by simp, Course.accounted_start source hFinished now⟩,
    .resting, rfl, rfl⟩

/-- The end of a turn. -/
theorem Supplied.taken (h : Supplied source c given t r) {turn : Turn}
    (hTurning : t.phase = .turning turn) (hPhase : Follows source (r.taken turn) t'.phase)
    (hSent : t'.sent = t.sent ++ turn.request.toList)
    (hResults : given ++ t'.channel.toList ++ t'.held.toList =
      given ++ t.channel.toList ++ turn.result.toList) :
    Supplied source c given t' (r.taken turn) := by
  obtain ⟨calls, hCancel, hAccounted⟩ := h.accounted
  have hFollows := h.phase
  rw [hTurning] at hFollows
  cases hFollows with
  | turning now =>
      have hMade := made_next source r.requests.length now r.collection
      have hResting : t.held = none := by rw [Task.held, hTurning]
      refine ⟨h.settled.taken hMade, ⟨calls ++ [.next], ?_, hAccounted.taken h.settled hMade⟩,
        hPhase, ?_, ?_⟩
      · simpa using hCancel
      · rw [hSent, h.sent, Course.requests_taken]
      · rw [Course.results_taken, h.results, hResults, hResting, Option.toList_none,
          List.append_nil]

/-- A step of the task. -/
theorem Supplied.step (hInterval : 0 < c.interval) (h : Supplied source c given t r)
    (hStep : Task.Step source t t') : ∃ r', Supplied source c given t' r' := by
  have hFollows := h.phase
  have hResults := h.results
  cases hStep with
  | stuck resting stuck =>
      rw [resting] at hFollows
      cases hFollows with
      | resting =>
          have hFree := isStuck_eq_false (h.settled.interval.symm ▸ hInterval)
          cases stuck.symm.trans hFree
  | begun resting free =>
      rw [resting] at hFollows
      cases hFollows with
      | resting =>
          rw [Task.held, resting] at hResults
          refine ⟨r, h.settled, h.accounted, ?_, h.sent, hResults⟩
          rw [h.sent]
          exact .turning t.now
  | filled turning due result room =>
      refine ⟨_, h.taken turning .resting rfl ?_⟩
      simp [Task.held, result, room]
  | held turning due result full =>
      refine ⟨_, h.taken turning (.holding _) rfl ?_⟩
      simp [Task.held, result]
  | @closed turn turning due result =>
      refine ⟨_, h.taken turning (.ended ?_) rfl ?_⟩
      · rw [turning] at hFollows
        cases hFollows with
        | turning now =>
            have hMade := made_next source r.requests.length now r.collection
            have hOver := hMade.result_eq_none_iff.mp result
            simp [Course.taken, Collection.next, hOver]
      · simp [Task.held, result]
  | released holding room =>
      rw [holding] at hFollows
      cases hFollows with
      | holding o =>
          refine ⟨r, h.settled, h.accounted, .resting, h.sent, ?_⟩
          rw [hResults]
          simp [Task.held, holding, room]

theorem Task.sent_sublist_requests (t : Task) : List.Sublist t.sent t.requests := by
  unfold requests
  split
  · exact List.sublist_append_left ..
  · exact .refl _

/-- A request that is under way belongs to a collection that goes on. -/
theorem Supplied.requests_eq (h : Supplied source c given t r)
    (hFinished : r.collection.finished = true) : t.requests = t.sent := by
  have hFollows := h.phase
  unfold Task.requests
  split
  · rename_i turn hTurning
    rw [hTurning] at hFollows
    cases hFollows with
    | turning now => simp [Collection.next, hFinished]
  · rfl

/-- The requests of all turns that have begun, even those that are still to be sent. -/
def Task.planned (t : Task) : List Request :=
  match t.phase with
  | .turning turn => t.sent ++ turn.request.toList
  | _ => t.sent

theorem Task.requests_sublist_planned (t : Task) : List.Sublist t.requests t.planned := by
  unfold requests planned
  cases t.phase with
  | turning turn =>
      refine (List.Sublist.refl t.sent).append ?_
      cases hRequest : turn.request with
      | none => simp
      | some q => by_cases hSent : q.sentAt ≤ t.now <;> simp [Option.filter, hSent]
  | resting | holding | ended => exact .refl _

/-- Only with a new turn comes a new request. -/
theorem Task.Step.planned_eq (h : Task.Step source t t') : t'.planned = t.planned ∨
    ∃ c, t.phase = .resting c ∧
      t'.planned = t.sent ++ (c.next source t.sent.length t.now).request.toList := by
  cases h with
  | stuck resting => exact .inl (by simp [planned, resting])
  | begun resting => exact .inr ⟨_, resting, rfl⟩
  | filled turning => exact .inl (by simp [planned, turning])
  | held turning => exact .inl (by simp [planned, turning])
  | closed turning => exact .inl (by simp [planned, turning])
  | released holding => exact .inl (by simp [planned, holding])

/-- How many outcomes had been received at an instant. -/
def receivedBy (received : List (Option Outcome × Nat)) (u : Nat) : Nat :=
  received.countP fun x => x.1.isSome && x.2 ≤ u

variable {received : List (Option Outcome × Nat)}

theorem receivedBy_eq_length {u : Nat} (h : ∀ x ∈ received, x.2 ≤ u) :
    receivedBy received u = (received.filterMap Prod.fst).length := by
  induction received with
  | nil => rfl
  | cons x rest ih =>
      have hRest := ih fun y hy => h y (List.mem_cons_of_mem _ hy)
      have hNow := h x List.mem_cons_self
      rw [receivedBy] at hRest ⊢
      cases hResult : x.1 <;> simp [hResult, hNow, hRest]

/-- At any instant at most two requests are ahead of the outcomes that have been received. -/
structure Paced (received : List (Option Outcome × Nat)) (t : Task) : Prop where
  past : ∀ x ∈ received, x.2 ≤ t.now
  ahead : ∀ u, t.planned.countP (·.sentAt ≤ u) ≤ receivedBy received u + 2

/-- A task begins a turn only when it has nothing in its hands. -/
theorem Paced.step (h : Paced received t)
    (hSupplied : Supplied source c (received.filterMap Prod.fst) t r)
    (hStep : Task.Step source t t') : Paced received t' := by
  refine ⟨hStep.now_eq ▸ h.past, fun u => ?_⟩
  rcases hStep.planned_eq with hSame | ⟨c', hResting, hNew⟩
  · rw [hSame]
    exact h.ahead u
  · have hBefore := h.ahead u
    rw [Task.planned, hResting] at hBefore
    rw [hNew, List.countP_append]
    cases hRequest : (c'.next source t.sent.length t.now).request with
    | none => simpa using hBefore
    | some q =>
        -- The new request counts from its instant on, when all outcomes so far have been received.
        by_cases hEarly : q.sentAt ≤ u
        · have hNow : t.now ≤ q.sentAt :=
            ((made_next source t.sent.length t.now c').within.2 q (Option.mem_def.mpr hRequest)).1
          have hAll : receivedBy received u = (received.filterMap Prod.fst).length :=
            receivedBy_eq_length fun x hx =>
              Nat.le_trans (h.past x hx) (Nat.le_trans hNow hEarly)
          have hSent : t.sent.length ≤ (received.filterMap Prod.fst).length + 1 := by
            obtain ⟨calls, -, hAccounted⟩ := hSupplied.accounted
            have hChannel : t.channel.toList.length ≤ 1 := Option.length_toList_le
            have hFew := hAccounted.delivered.length_le.2
            rw [← hSupplied.sent, hSupplied.results, Task.held, hResting] at hFew
            simp only [Option.toList_none, List.append_nil, List.length_append] at hFew
            omega
          have hCount : t.sent.countP (·.sentAt ≤ u) ≤ t.sent.length := List.countP_le_length
          simp only [Option.toList_some, List.countP_singleton, hEarly, decide_true, if_true]
          omega
        · simpa [hEarly] using hBefore

/-- What a task has done for its owner. -/
structure Served (source : Source) (c : Collection) (o : Owner) : Prop where
  supplied : ∃ r, Supplied source c (o.received.filterMap Prod.fst) o.task r
  paced : Paced o.received o.task
  /-- The owner has gone away empty-handed only from a task that has ended. -/
  ended : ∃ n, o.received.map Prod.fst =
      (o.received.filterMap Prod.fst).map some ++ List.replicate n none ∧
    (n ≠ 0 → o.task.phase = .ended ∧ o.task.channel = none)

variable {o : Owner}

theorem Served.advance (hInterval : 0 < c.interval) (h : Served source c o)
    (hAdvance : Task.Advance source o.task t') : Served source c { o with task := t' } := by
  obtain ⟨⟨r, hSupplied⟩, hPaced, n, hReceived, hEnded⟩ := h
  cases hAdvance with
  | act hStep =>
      refine ⟨hSupplied.step hInterval hStep, hPaced.step hSupplied hStep, n, hReceived,
        fun hn => ?_⟩
      obtain ⟨hPhase, hRoom⟩ := hEnded hn
      have hIdle : o.task.step source = none := Task.step_eq_none_iff.mpr (.ended hPhase)
      cases hIdle.symm.trans hStep.eq_some
  | pass idle later early =>
      obtain ⟨hSettled, hAccounted, hPhase, hSent, hResults⟩ := hSupplied
      exact ⟨⟨r, hSettled, hAccounted, hPhase, hSent, hResults⟩,
        ⟨fun x hx => Nat.le_trans (hPaced.past x hx) later, hPaced.ahead⟩, n, hReceived, hEnded⟩

theorem Served.reaches (hInterval : 0 < c.interval) (h : Served source c o)
    (hReach : Task.Reaches source o.task t') : Served source c { o with task := t' } := by
  induction hReach with
  | refl => exact h
  | @tail u v _ hAdvance ih =>
      exact Served.advance (o := { o with task := u }) hInterval ih hAdvance

/-- The owner takes what is in the channel. -/
theorem Served.taken (h : Served source c o)
    (hEmpty : o.task.channel = none → o.task.phase = .ended) :
    Served source c
      { task := { o.task with channel := none }
        received := o.received ++ [(o.task.channel, o.task.now)] } := by
  obtain ⟨⟨r, hSupplied⟩, ⟨hPast, hAhead⟩, n, hReceived, hEnded⟩ := h
  obtain ⟨hSettled, hAccounted, hPhase, hSent, hResults⟩ := hSupplied
  refine ⟨⟨r, hSettled, hAccounted, hPhase, hSent, ?_⟩, ⟨?_, fun u => ?_⟩, ?_⟩
  · rw [hResults]
    cases o.task.channel <;> simp [Task.held]
  · simpa [or_imp, forall_and] using hPast
  · have hMore : receivedBy o.received u ≤
        receivedBy (o.received ++ [(o.task.channel, o.task.now)]) u := by
      simp [receivedBy]
    exact Nat.le_trans (hAhead u) (Nat.add_le_add_right hMore 2)
  · cases hChannel : o.task.channel with
    | none =>
        refine ⟨n + 1, ?_, fun _ => ⟨hEmpty hChannel, rfl⟩⟩
        simp [hReceived, List.replicate_succ']
    | some x =>
        have hNone : n = 0 := by
          by_contra hn
          cases hChannel.symm.trans (hEnded hn).2
        subst hNone
        exact ⟨0, by simpa using hReceived, fun hn => absurd rfl hn⟩

theorem Served.step (hInterval : 0 < c.interval) (h : Served source c o) (deed : Deed) :
    Served source c (o.step source deed) := by
  cases deed with
  | receive =>
      obtain ⟨u, hReach, hReceive, hEmpty⟩ := Task.receive_reaches source o.task
      have hServed := (h.reaches hInterval hReach).taken hEmpty
      rw [Owner.step, hReceive]
      exact hServed
  | sleep ms => exact h.reaches hInterval (Task.sleep_reaches source ms o.task).1

theorem served_run (hInterval : 0 < c.interval) (hSchedule : c.schedule = none)
    (hFinished : c.finished = false) (now : Nat) (deeds : List Deed) :
    Served source c (({ task := .spawn now c } : Owner).run source deeds) := by
  induction deeds using List.reverseRecOn with
  | nil =>
      have hPaced : Paced [] (.spawn now c) :=
        ⟨fun x hx => absurd hx List.not_mem_nil, fun u => Nat.zero_le _⟩
      exact ⟨⟨_, supplied_spawn source hSchedule hFinished now⟩, hPaced, 0, rfl,
        fun hn => absurd rfl hn⟩
  | append_singleton deeds deed ih =>
      rw [Owner.run_append]
      exact ih.step hInterval deed

theorem outcomes_mono {m n : Nat} (h : m ≤ n) (source : Source) (challengeId : String) :
    outcomes source challengeId m <+: outcomes source challengeId n := by
  obtain ⟨more, rfl⟩ := Nat.exists_eq_add_of_le h
  rw [outcomes, outcomes, List.range_add, List.map_append]
  exact List.prefix_append ..

/-- Of outcomes among which only the last one can be terminal, the same holds for the first ones. -/
theorem ongoing_of_append {first rest : List Outcome}
    (h : ∀ o ∈ (first ++ rest).dropLast, o.isTerminal = false) :
    ∀ o ∈ first.dropLast, o.isTerminal = false := by
  intro o ho
  refine h o ?_
  by_cases hRest : rest = []
  · rwa [hRest, List.append_nil]
  · rw [List.dropLast_append_of_ne_nil hRest]
    exact List.mem_append_left _ ((List.dropLast_sublist first).mem ho)

/-- Outcomes of requests, or the time was up before the last one. -/
theorem Supplied.delivered (h : Supplied source c given t r) :
    given <+: outcomes source c.challengeId t.requests.length ∨
      c.maxDuration.isSome ∧ ∃ n, n ≤ t.requests.length ∧ t.requests.length ≤ n + 1 ∧
        given = outcomes source c.challengeId n ++ [.timedOut] := by
  obtain ⟨calls, hCancel, hAccounted⟩ := h.accounted
  have hGiven : given <+: r.results := by
    rw [h.results, List.append_assoc]
    exact List.prefix_append ..
  have hSent : r.requests.length ≤ t.requests.length := by
    rw [← h.sent]
    exact t.sent_sublist_requests.length_le
  rcases hAccounted.delivered.eq_or with hAnswers | ⟨hLimited, n, hLe, hSucc, hTimedOut⟩
  · rw [hAnswers] at hGiven
    exact .inl (hGiven.trans (outcomes_mono hSent ..))
  · rw [hTimedOut, List.prefix_concat_iff] at hGiven
    rcases hGiven with hAll | hSome
    · -- The time is up, so no request is under way.
      have hFinished : r.collection.finished = true :=
        hAccounted.finished_iff.mpr (.inl ⟨.timedOut, by simp [hTimedOut], rfl⟩)
      rw [h.requests_eq hFinished, h.sent]
      exact .inr ⟨hLimited, n, hLe, hSucc, hAll⟩
    · exact .inl (hSome.trans (outcomes_mono (Nat.le_trans hLe hSent) ..))

theorem Supplied.named (h : Supplied source c given t r) :
    ∀ q ∈ t.requests, q.challengeId = c.challengeId := by
  obtain ⟨calls, -, hAccounted⟩ := h.accounted
  have hFollows := h.phase
  intro q hq
  have hPlanned : q ∈ t.planned := t.requests_sublist_planned.mem hq
  unfold Task.planned at hPlanned
  split at hPlanned
  · rename_i turn hTurning
    rw [hTurning] at hFollows
    rw [List.mem_append, Option.mem_toList] at hPlanned
    rcases hPlanned with hBefore | hNow
    · exact hAccounted.named q (h.sent ▸ hBefore)
    · cases hFollows with
      | turning now =>
          have hMade := made_next source r.requests.length now r.collection
          exact (hMade.challengeId_request q hNow).trans h.settled.challengeId
  · exact hAccounted.named q (h.sent ▸ hPlanned)

/-- When the task has ended and all is received, a terminal outcome has been. -/
theorem Supplied.exists_terminal (h : Supplied source c given t r) (hEnded : t.phase = .ended)
    (hRoom : t.channel = none) : ∃ o ∈ given, o.isTerminal = true := by
  obtain ⟨calls, hCancel, hAccounted⟩ := h.accounted
  have hFollows := h.phase
  have hAll : r.results = given := by
    rw [h.results, hRoom, Task.held, hEnded]
    simp
  rw [hEnded] at hFollows
  cases hFollows with
  | ended finished =>
      rw [← hAll]
      exact (hAccounted.finished_iff.mp finished).resolve_right hCancel

/-- Whatever its owner does, a task loses nothing. What the owner receives are the outcomes of the
requests so far, all for the one challenge, from the first one on; only that the time is up can come
in place of the last one. All outcomes but perhaps the last are such that others can follow, and the
owner receives nothing only after a terminal one. At any instant at most two requests are ahead of
the outcomes that the owner has received. -/
theorem owner_loses_nothing (k : Collector) (challengeId : String) (hInterval : 0 < k.interval)
    (now : Nat) (deeds : List Deed) :
    let o := ({ task := k.spawn challengeId now } : Owner).run k.source deeds
    let given := o.received.filterMap Prod.fst
    let asked := o.task.requests.length
    (given <+: outcomes k.source challengeId asked ∨
      k.maxDuration.isSome ∧ ∃ n, n ≤ asked ∧ asked ≤ n + 1 ∧
        given = outcomes k.source challengeId n ++ [.timedOut]) ∧
    (∀ q ∈ o.task.requests, q.challengeId = challengeId) ∧
    (∃ first : List Outcome, ∃ last : Option Outcome, ∃ n : Nat,
      o.received.map Prod.fst = (first ++ last.toList).map some ++ List.replicate n none ∧
      (∀ o ∈ first, o.isTerminal = false) ∧ (∀ o ∈ last, o.isTerminal = true) ∧
      (n ≠ 0 → last.isSome)) ∧
    ∀ u, o.task.requests.countP (·.sentAt ≤ u) ≤ receivedBy o.received u + 2 := by
  intro o given asked
  obtain ⟨⟨r, hSupplied⟩, hPaced, n, hReceived, hEnded⟩ : Served k.source (k.poll challengeId) o :=
    served_run hInterval rfl rfl now deeds
  obtain ⟨calls, hCancel, hAccounted⟩ := hSupplied.accounted
  refine ⟨hSupplied.delivered, hSupplied.named, ?_, fun u => ?_⟩
  · have hOngoing : ∀ o ∈ given.dropLast, o.isTerminal = false := by
      have hAll := hAccounted.ongoing
      rw [hSupplied.results, List.append_assoc] at hAll
      exact ongoing_of_append hAll
    obtain ⟨first, last, hGiven, hFirst, hLast⟩ := Course.exists_first_last hOngoing
    refine ⟨first, last, n, by rw [hReceived, ← hGiven], hFirst, hLast, fun hn => ?_⟩
    obtain ⟨x, hx, hTerminal⟩ := hSupplied.exists_terminal (hEnded hn).1 (hEnded hn).2
    cases last with
    | some y => rfl
    | none =>
        rw [show o.received.filterMap Prod.fst = first by simpa using hGiven] at hx
        cases (hFirst x hx).symm.trans hTerminal
  · exact Nat.le_trans o.task.requests_sublist_planned.countP_le (hPaced.ahead u)

/-- A source that answers at once, asked for a short time. -/
def fleeting : Collector where
  source := .ofScript [{ result := .ok .pending }, { result := .ok .viewed }]
  interval := 10
  maxDuration := some 45

/-- The owner sleeps beyond the deadline. Two outcomes wait for it, and a third request is not sent.
-/
theorem fleeting_owner :
    let o := ({ task := fleeting.spawn "c" 0 } : Owner).run fleeting.source
      [.sleep 100, .receive, .receive, .receive, .receive]
    0 < fleeting.interval ∧
      o.received = [(some .pending, 100), (some .viewed, 100), (some .timedOut, 100), (none, 100)] ∧
      o.task.requests =
        [{ challengeId := "c", sentAt := 10 }, { challengeId := "c", sentAt := 20 }] ∧
      ∀ u, o.task.requests.countP (·.sentAt ≤ u) ≤ receivedBy o.received u + 2 := by
  intro o
  have hInterval : 0 < fleeting.interval := by decide
  obtain ⟨-, -, -, hAhead⟩ := owner_loses_nothing fleeting "c" hInterval 0
    [.sleep 100, .receive, .receive, .receive, .receive]
  exact ⟨hInterval, rfl, rfl, hAhead⟩

end RemoteSigning.Collection
