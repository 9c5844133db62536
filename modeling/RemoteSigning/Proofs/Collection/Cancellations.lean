import RemoteSigning.Proofs.Collection.Owners

/-!
# Cancelled tasks

The owner of a task may cancel it at any moment: while the task waits for a tick or for an answer,
with an outcome in its hands, or with one in the channel. A task that was cancelled does nothing any
more, but the channel keeps what is in it. `moves_of_ended` says all that can come of such a task;
`Backed` carries over the cancel where its outcomes come from.
-/

namespace RemoteSigning.Collection

/-- What is done with a task that can be cancelled. -/
inductive Move where
  | deed (d : Deed)
  | cancel
deriving DecidableEq

namespace Owner

def cancel (o : Owner) : Owner := { o with task := o.task.cancel }

/-- The owner after doing something with the task or cancelling it. -/
def move (source : Source) (o : Owner) : Move → Owner
  | .deed d => o.step source d
  | .cancel => o.cancel

def moves (source : Source) (o : Owner) (ms : List Move) : Owner := ms.foldl (move source) o

@[simp]
theorem moves_nil (source : Source) (o : Owner) : o.moves source [] = o := rfl

@[simp]
theorem moves_cons (source : Source) (o : Owner) (m : Move) (rest : List Move) :
    o.moves source (m :: rest) = (o.move source m).moves source rest := rfl

@[simp]
theorem moves_append (source : Source) (o : Owner) (first rest : List Move) :
    o.moves source (first ++ rest) = (o.moves source first).moves source rest :=
  List.foldl_append

/-- The outcomes that the owner has received, and the one that is in the channel. -/
def known (o : Owner) : List Outcome := o.received.filterMap Prod.fst ++ o.task.channel.toList

end Owner

variable {source : Source} {c : Collection} {t : Task} {o : Owner}

/-- From a task that has ended, what is in the channel is received, and then nothing. -/
theorem Task.receive_of_ended (h : t.phase = .ended) :
    t.receive source = (t.channel, { t with channel := none }) := by
  cases hChannel : t.channel with
  | some x => simp [receive, hChannel]
  | none =>
      have hSettled : t.settle source = t := Idle.settle_eq (.ended h)
      have hAwait : t.awaitWithin source turnsAhead = t := by
        rw [turnsAhead, awaitWithin_of_asleep, hSettled]
        rw [hSettled, wakesAt, h]
      simp [receive, hChannel, hAwait]

theorem Task.sleep_of_ended (h : t.phase = .ended) (ms : Nat) :
    t.sleep source ms = { t with now := t.now + ms } := by
  have hSettled : t.settle source = t := Idle.settle_eq (.ended h)
  have hWakes : t.wakesAt = none := by rw [wakesAt, h]
  simp [sleep, turnsAhead, passWithin, hSettled, hWakes]

theorem Task.requests_of_ended (h : t.phase = .ended) : t.requests = t.sent := by
  rw [requests, h]

/-- Cancelling a task takes none of its requests back. -/
theorem Task.requests_cancel (t : Task) : t.cancel.requests = t.requests :=
  requests_of_ended rfl

/-- What is received of a task that does nothing any more. -/
def leftovers (channel : Option Outcome) : Nat → List (Option Outcome)
  | 0 => []
  | n + 1 => channel :: List.replicate n none

theorem leftovers_none (n : Nat) : leftovers none n = List.replicate n none := by
  cases n with
  | zero => rfl
  | succ n => rfl

/-- One move with a task that has ended. The owner takes what is in the channel, and that is all. -/
theorem Owner.move_of_ended (source : Source) (h : o.task.phase = .ended) (m : Move) :
    (o.move source m).task.phase = .ended ∧
    (o.move source m).task.requests = o.task.requests ∧
    (o.move source m).known = o.known ∧
    (m = .deed .receive ∧ (o.move source m).task.channel = none ∧
        (o.move source m).received = o.received ++ [(o.task.channel, o.task.now)] ∨
      m ≠ .deed .receive ∧ (o.move source m).task.channel = o.task.channel ∧
        (o.move source m).received = o.received) := by
  cases m with
  | deed d =>
      cases d with
      | receive =>
          have hMove : o.move source (.deed .receive) =
              { task := { o.task with channel := none }
                received := o.received ++ [(o.task.channel, o.task.now)] } := by
            simp [move, step, Task.receive_of_ended h]
          rw [hMove]
          refine ⟨h, ?_, ?_, .inl ⟨rfl, rfl, rfl⟩⟩
          · rw [Task.requests_of_ended h]
            exact Task.requests_of_ended h
          · cases hChannel : o.task.channel <;> simp [known, hChannel]
      | sleep ms =>
          have hMove : o.move source (.deed (.sleep ms)) =
              { o with task := { o.task with now := o.task.now + ms } } := by
            simp [move, step, Task.sleep_of_ended h]
          rw [hMove]
          refine ⟨h, ?_, rfl, .inr ⟨by simp, rfl, rfl⟩⟩
          rw [Task.requests_of_ended h]
          exact Task.requests_of_ended h
  | cancel =>
      exact ⟨rfl, o.task.requests_cancel, rfl, .inr ⟨by simp, rfl, rfl⟩⟩

/-- All that can come of a task that has ended. -/
theorem Owner.moves_of_ended (source : Source) (h : o.task.phase = .ended) (ms : List Move) :
    (o.moves source ms).task.requests = o.task.requests ∧
    (o.moves source ms).received.map Prod.fst =
      o.received.map Prod.fst ++ leftovers o.task.channel (ms.count (.deed .receive)) := by
  induction ms generalizing o with
  | nil => exact ⟨rfl, by simp [leftovers]⟩
  | cons m rest ih =>
      obtain ⟨hEnded, hRequests, -, hTaken⟩ := move_of_ended source h m
      obtain ⟨hLater, hReceived⟩ := ih hEnded
      rw [moves_cons]
      apply And.intro (hLater.trans hRequests)
      rw [hReceived]
      rcases hTaken with ⟨rfl, hChannel, hTaken⟩ | ⟨hOther, hChannel, hTaken⟩
      · rw [hChannel, hTaken, List.count_cons_self, leftovers_none]
        simp [leftovers]
      · rw [hChannel, hTaken, List.count_cons_of_ne hOther]

/-- Outcomes of requests, from the first one on; only that the time is up can come in place of the
last one. -/
def Answers (source : Source) (c : Collection) (asked : Nat) (given : List Outcome) : Prop :=
  given <+: outcomes source c.challengeId asked ∨
    c.maxDuration.isSome ∧ ∃ n, n ≤ asked ∧ asked ≤ n + 1 ∧
      given = outcomes source c.challengeId n ++ [.timedOut]

/-- What is in the channel counts as if it had been received. -/
theorem Served.answers (h : Served source c o) :
    Answers source c o.task.requests.length o.known := by
  obtain ⟨⟨r, hSupplied⟩, -, -⟩ := h
  have hEmptied : Supplied source c o.known { o.task with channel := none } r := by
    have hResults : r.results = o.known ++ [] ++ o.task.held.toList := by
      rw [hSupplied.results, Owner.known, List.append_nil]
    exact ⟨hSupplied.settled, hSupplied.accounted, hSupplied.phase, hSupplied.sent, hResults⟩
  exact hEmptied.delivered

/-- A task that serves its owner, or one that has ended with the outcomes of its requests. -/
inductive Backed (source : Source) (c : Collection) (o : Owner) : Prop where
  | serving (served : Served source c o)
  | finished (ended : o.task.phase = .ended) (answers : Answers source c o.task.requests.length o.known)

/-- Whatever a task has been made to do, its outcomes go back to its requests. -/
theorem Backed.answers (h : Backed source c o) :
    Answers source c o.task.requests.length o.known := by
  cases h with
  | serving served => exact served.answers
  | finished ended answers => exact answers

/-- Nothing that is done with a task changes that. -/
theorem Backed.move (hInterval : 0 < c.interval) (h : Backed source c o) (m : Move) :
    Backed source c (o.move source m) := by
  cases h with
  | serving served =>
      cases m with
      | deed d => exact .serving (served.step hInterval d)
      | cancel =>
          apply Backed.finished rfl
          show Answers source c o.task.cancel.requests.length o.known
          rw [Task.requests_cancel]
          exact served.answers
  | finished ended answers =>
      obtain ⟨hEnded, hRequests, hKnown, -⟩ := Owner.move_of_ended source ended m
      apply Backed.finished hEnded
      rw [hRequests, hKnown]
      exact answers

/-- So it holds after anything that is done with a task that was spawned. -/
theorem backed_moves (hInterval : 0 < c.interval) (hSchedule : c.schedule = none)
    (hFinished : c.finished = false) (now : Nat) (ms : List Move) :
    Backed source c (({ task := .spawn now c } : Owner).moves source ms) := by
  induction ms using List.reverseRecOn with
  | nil => exact .serving (served_run hInterval hSchedule hFinished now [])
  | append_singleton ms m ih =>
      rw [Owner.moves_append]
      exact ih.move hInterval m

/-- What a cancel puts an end to. Whenever a task is cancelled, and whatever its owner does later, no
request is sent any more. The first outcome that the owner asks for is what was in the channel, and
nothing comes after it: so something is received after all exactly if the channel was not empty. It
is what the source said to a request that had been sent before the cancel, or that the time was up.
-/
theorem cancelled_gives_leftovers (k : Collector) (challengeId : String)
    (hInterval : 0 < k.interval) (now : Nat) (before after : List Move) :
    let o := ({ task := k.spawn challengeId now } : Owner).moves k.source before
    let o' := ({ task := k.spawn challengeId now } : Owner).moves k.source
      (before ++ .cancel :: after)
    let late := (o'.received.drop o.received.length).map Prod.fst
    let n := after.count (.deed .receive)
    o'.task.requests = o.task.requests ∧
    o'.received.map Prod.fst = o.received.map Prod.fst ++ late ∧
    late = leftovers o.task.channel n ∧
    ((∀ x ∈ late, x = none) ↔ n = 0 ∨ o.task.channel = none) ∧
    let asked := o.task.requests.length
    (o.known <+: outcomes k.source challengeId asked ∨
      k.maxDuration.isSome ∧ ∃ n, n ≤ asked ∧ asked ≤ n + 1 ∧
        o.known = outcomes k.source challengeId n ++ [.timedOut]) := by
  intro o o' late n
  have hAfter : o' = o.cancel.moves k.source after := Owner.moves_append ..
  have hEnded : o.cancel.task.phase = .ended := rfl
  obtain ⟨hRequests, hReceived⟩ := Owner.moves_of_ended k.source hEnded after
  rw [← hAfter] at hRequests hReceived
  have hLate : late = leftovers o.task.channel n := by
    show (o'.received.drop o.received.length).map Prod.fst = _
    rw [List.map_drop, hReceived]
    exact List.drop_left' (List.length_map _)
  have hBacked : Backed k.source (k.poll challengeId) o :=
    backed_moves hInterval rfl rfl now before
  refine ⟨hRequests.trans o.task.requests_cancel, ?_, hLate, ?_, hBacked.answers⟩
  · rw [hLate]
    exact hReceived
  · rw [hLate]
    cases n with
    | zero => simp [leftovers]
    | succ n => simp [leftovers]

/-- The first outcome is in the channel when the task is cancelled, and it is received later. -/
theorem cancelled_gives_pending :
    let o := ({ task := fleeting.spawn "c" 0 } : Owner).moves fleeting.source [.deed (.sleep 15)]
    let o' := ({ task := fleeting.spawn "c" 0 } : Owner).moves fleeting.source
      ([.deed (.sleep 15)] ++ .cancel :: [.deed .receive, .deed .receive])
    0 < fleeting.interval ∧ o.received = [] ∧
      o'.received = [(some .pending, 15), (none, 15)] ∧
      o'.task.requests = [{ challengeId := "c", sentAt := 10 }] ∧
      ¬∀ x ∈ (o'.received.drop o.received.length).map Prod.fst, x = none := by
  intro o o'
  have hInterval : 0 < fleeting.interval := by decide
  obtain ⟨-, -, -, hNothing, -⟩ := cancelled_gives_leftovers fleeting "c" hInterval 0
    [.deed (.sleep 15)] [.deed .receive, .deed .receive]
  have hWaiting : ¬(2 = 0 ∨ o.task.channel = none) := by decide
  exact ⟨hInterval, rfl, rfl, rfl, fun h => hWaiting (hNothing.mp h)⟩

end RemoteSigning.Collection
