import RemoteSigning.Collection.Collector
import Mathlib.Data.List.Induction

/-!
# Courses of a collection

A collection is asked for its next outcome, cancelled, or left alone for some time, in any order.
`Course` keeps all turns so far, with the requests that were sent and the outcomes that were given.
What a single call of `next` can do is said once, by `Made`; `Accounted` is what any course keeps,
and `course_law` reads off it what a collection promises over its whole life.
-/

namespace RemoteSigning.Collection

/-- What is done with a collection. -/
inductive Call where
  | next
  | cancel
  /-- Nothing, for some time. -/
  | wait (ms : Nat)
deriving DecidableEq

/-- A collection, the present instant, and the turns so far, oldest first. -/
structure Course where
  collection : Collection
  now : Nat
  turns : List Turn := []

namespace Course

/-- A collection that has not been called yet. -/
def start (c : Collection) (now : Nat) : Course := { collection := c, now }

/-- The requests that were sent, oldest first. -/
def requests (r : Course) : List Request := r.turns.filterMap Turn.request

/-- The outcomes that were given, oldest first. -/
def results (r : Course) : List Outcome := r.turns.filterMap Turn.result

/-- The turn that a call of `next` takes. -/
def turn (source : Source) (r : Course) : Turn :=
  r.collection.next source r.requests.length r.now

/-- The course after one more turn. -/
def taken (r : Course) (t : Turn) : Course :=
  { collection := t.collection, now := t.doneAt, turns := r.turns ++ [t] }

/-- The course after a call. -/
def step (source : Source) (r : Course) : Call → Course
  | .next => r.taken (r.turn source)
  | .cancel => { r with collection := r.collection.cancel }
  | .wait ms => { r with now := r.now + ms }

def run (source : Source) (r : Course) (calls : List Call) : Course := calls.foldl (step source) r

variable {source : Source} {r : Course} {t : Turn} {calls : List Call}

@[simp]
theorem run_nil (source : Source) (r : Course) : r.run source [] = r := rfl

@[simp]
theorem run_cons (source : Source) (r : Course) (c : Call) (rest : List Call) :
    r.run source (c :: rest) = (r.step source c).run source rest := rfl

@[simp]
theorem run_append (source : Source) (r : Course) (first rest : List Call) :
    r.run source (first ++ rest) = (r.run source first).run source rest :=
  List.foldl_append

@[simp]
theorem requests_taken (r : Course) (t : Turn) :
    (r.taken t).requests = r.requests ++ t.request.toList := by
  cases hRequest : t.request <;> simp [requests, taken, hRequest]

@[simp]
theorem results_taken (r : Course) (t : Turn) :
    (r.taken t).results = r.results ++ t.result.toList := by
  cases hResult : t.result <;> simp [results, taken, hResult]

end Course

theorem le_tickAt (due now : Nat) : now ≤ tickAt due now := Nat.le_max_right due now

variable {source : Source} {asked now : Nat} {c : Collection} {t : Turn}

/-- All that a call of `next` can do. The tick is at `tickAt due now`, where `due` and the deadline
are those of `scheduleAt`. -/
inductive Made (source : Source) (asked now : Nat) (c : Collection) : Turn → Prop where
  /-- The collection is finished. -/
  | spent (finished : c.finished = true) :
      Made source asked now c { result := none, request := none, doneAt := now, collection := c }
  /-- The tick comes when the time is up. -/
  | late {due deadline : Nat} (running : c.finished = false)
      (scheduled : c.scheduleAt now = (due, some deadline)) (up : deadline ≤ tickAt due now) :
      Made source asked now c
        { result := some .timedOut, request := none, doneAt := tickAt due now
          collection := { c with
            schedule := some (tickAfter c.interval due now, some deadline), finished := true } }
  /-- A request is given up because the time is up. -/
  | cut {due deadline : Nat} (running : c.finished = false)
      (scheduled : c.scheduleAt now = (due, some deadline)) (inTime : tickAt due now < deadline)
      (slow : deadline < tickAt due now + (source c.challengeId asked).delay) :
      Made source asked now c
        { result := some .timedOut
          request := some { challengeId := c.challengeId, sentAt := tickAt due now }
          doneAt := deadline
          collection := { c with
            schedule := some (tickAfter c.interval due now, some deadline), finished := true } }
  /-- A request is answered. -/
  | answered {due : Nat} {deadline : Option Nat} (running : c.finished = false)
      (scheduled : c.scheduleAt now = (due, deadline))
      (inTime : ∀ d ∈ deadline, tickAt due now < d ∧
        tickAt due now + (source c.challengeId asked).delay ≤ d) :
      Made source asked now c
        { result := some (outcomeOf (source c.challengeId asked).result)
          request := some { challengeId := c.challengeId, sentAt := tickAt due now }
          doneAt := tickAt due now + (source c.challengeId asked).delay
          collection := { c with
            schedule := some (tickAfter c.interval due now, deadline)
            finished := (outcomeOf (source c.challengeId asked).result).isTerminal } }

/-- `Made` is all that a call of `next` can do. -/
theorem made_next (source : Source) (asked now : Nat) (c : Collection) :
    Made source asked now c (c.next source asked now) := by
  unfold next
  split
  · rename_i hFinished
    exact .spent hFinished
  · rename_i hRunning
    rw [Bool.not_eq_true] at hRunning
    cases hScheduled : c.scheduleAt now with
    | mk due deadline =>
        cases deadline with
        | none => exact .answered hRunning hScheduled (by simp)
        | some d =>
            by_cases hUp : d ≤ tickAt due now
            · simpa [hUp, outOfTime] using Made.late hRunning hScheduled hUp
            · have hInTime : tickAt due now < d := Nat.lt_of_not_le hUp
              by_cases hSlow : d < tickAt due now + (source c.challengeId asked).delay
              · simpa [hUp, ask, hSlow, outOfTime] using Made.cut hRunning hScheduled hInTime hSlow
              · have hAnswered : ∀ d' ∈ some d, tickAt due now < d' ∧
                    tickAt due now + (source c.challengeId asked).delay ≤ d' := by
                  intro d' hd
                  obtain rfl := Option.mem_some_iff.mp hd
                  exact ⟨hInTime, Nat.le_of_not_lt hSlow⟩
                simpa [hUp, ask, hSlow] using Made.answered hRunning hScheduled hAnswered

/-- Time goes on, and a request is sent within its turn. -/
theorem Made.within (h : Made source asked now c t) :
    now ≤ t.doneAt ∧ ∀ q ∈ t.request, now ≤ q.sentAt ∧ q.sentAt ≤ t.doneAt := by
  cases h with
  | spent finished => exact ⟨Nat.le_refl _, by simp⟩
  | @late due deadline running scheduled up => exact ⟨le_tickAt due now, by simp⟩
  | @cut due deadline running scheduled inTime slow =>
      have hNow := le_tickAt due now
      refine ⟨Nat.le_trans hNow (Nat.le_of_lt inTime), fun q hq => ?_⟩
      obtain rfl := Option.mem_some_iff.mp hq
      exact ⟨hNow, Nat.le_of_lt inTime⟩
  | @answered due deadline running scheduled inTime =>
      have hNow := le_tickAt due now
      refine ⟨Nat.le_trans hNow (Nat.le_add_right _ _), fun q hq => ?_⟩
      obtain rfl := Option.mem_some_iff.mp hq
      exact ⟨hNow, Nat.le_add_right _ _⟩

/-- It asks only about the challenge of the collection. -/
theorem Made.challengeId_request (h : Made source asked now c t) :
    ∀ q ∈ t.request, q.challengeId = c.challengeId := by
  cases h <;> simp

theorem Made.challengeId_eq (h : Made source asked now c t) :
    t.collection.challengeId = c.challengeId := by
  cases h <;> rfl

/-- It leaves the interval as it is. -/
theorem Made.interval_eq (h : Made source asked now c t) : t.collection.interval = c.interval := by
  cases h <;> rfl

/-- Nothing comes of a call exactly if the collection is finished. -/
theorem Made.result_eq_none_iff (h : Made source asked now c t) :
    t.result = none ↔ c.finished = true := by
  cases h <;> simp_all

/-- Only a collection without an interval can get stuck. -/
theorem isStuck_eq_false (h : 0 < c.interval) : c.isStuck = false := by
  simp [isStuck, Nat.ne_of_gt h]

namespace Course

variable {r : Course} {calls : List Call}

theorem made_turn (source : Source) (r : Course) :
    Made source r.requests.length r.now r.collection (r.turn source) :=
  made_next ..

/-- The settings of a collection stay. -/
structure Settled (c : Collection) (r : Course) : Prop where
  challengeId : r.collection.challengeId = c.challengeId
  interval : r.collection.interval = c.interval
  maxDuration : r.collection.maxDuration = c.maxDuration
  /-- There is a deadline only if there is a limit. -/
  limited : ∀ due d, r.collection.schedule = some (due, some d) → c.maxDuration.isSome

theorem settled_start (hSchedule : c.schedule = none) (now : Nat) : Settled c (start c now) := by
  refine ⟨rfl, rfl, rfl, fun due d h => ?_⟩
  cases hSchedule.symm.trans h

/-- There is a deadline only for a collection with a limit. -/
theorem Settled.limited_at (h : Settled c r) {due d : Nat}
    (hAt : r.collection.scheduleAt now = (due, some d)) : c.maxDuration.isSome := by
  cases hSchedule : r.collection.schedule with
  | none =>
      simp only [scheduleAt, hSchedule, Option.getD_none, Prod.mk.injEq] at hAt
      rw [← h.maxDuration, ← Option.isSome_map (f := (now + ·)), hAt.2]
      rfl
  | some at' =>
      simp only [scheduleAt, hSchedule, Option.getD_some] at hAt
      exact h.limited due d (hAt ▸ hSchedule)

theorem Settled.taken (h : Settled c r) (hMade : Made source asked now r.collection t) :
    Settled c (r.taken t) := by
  refine ⟨hMade.challengeId_eq.trans h.challengeId, hMade.interval_eq.trans h.interval, ?_, ?_⟩
  · cases hMade <;> exact h.maxDuration
  · intro due d hSchedule
    cases hMade with
    | spent finished => exact h.limited due d hSchedule
    | late running scheduled => exact h.limited_at scheduled
    | cut running scheduled => exact h.limited_at scheduled
    | answered running scheduled =>
        obtain ⟨-, rfl⟩ := Prod.mk.inj (Option.some.inj hSchedule)
        exact h.limited_at scheduled

/-- No call changes the settings. -/
theorem Settled.run (h : Settled c r) (calls : List Call) : Settled c (r.run source calls) := by
  induction calls generalizing r with
  | nil => exact h
  | cons call rest ih =>
      apply ih
      cases call with
      | next => exact h.taken (made_turn source r)
      | cancel => exact ⟨h.challengeId, h.interval, h.maxDuration, fun _ _ hNone => nomatch hNone⟩
      | wait ms => exact ⟨h.challengeId, h.interval, h.maxDuration, h.limited⟩

/-- Turns come one after the other. -/
structure InTurn (r : Course) : Prop where
  past : ∀ t ∈ r.turns, t.doneAt ≤ r.now
  sent : ∀ t ∈ r.turns, ∀ q ∈ t.request, q.sentAt ≤ t.doneAt
  apart : r.turns.Pairwise fun s t => ∀ q ∈ t.request, s.doneAt ≤ q.sentAt

/-- Before the first call there is nothing to be out of turn. -/
theorem inTurn_start (c : Collection) (now : Nat) : InTurn (start c now) := by
  constructor <;> simp [start]

theorem InTurn.taken (h : InTurn r) (hMade : Made source asked r.now r.collection t) :
    InTurn (r.taken t) := by
  obtain ⟨hNow, hSent⟩ := hMade.within
  constructor
  · intro s hs
    rcases List.mem_append.mp hs with hs | hs
    · exact Nat.le_trans (h.past s hs) hNow
    · rw [List.mem_singleton.mp hs]
      exact Nat.le_refl _
  · intro s hs q hq
    rcases List.mem_append.mp hs with hs | hs
    · exact h.sent s hs q hq
    · rw [List.mem_singleton.mp hs] at hq ⊢
      exact (hSent q hq).2
  · refine List.pairwise_append.mpr ⟨h.apart, List.pairwise_singleton .., fun s hs u hu q hq => ?_⟩
    rw [List.mem_singleton.mp hu] at hq
    exact Nat.le_trans (h.past s hs) (hSent q hq).1

/-- However a collection is called, its turns come one after the other. -/
theorem InTurn.run (h : InTurn r) (calls : List Call) : InTurn (r.run source calls) := by
  induction calls generalizing r with
  | nil => exact h
  | cons call rest ih =>
      apply ih
      cases call with
      | next => exact h.taken (made_turn source r)
      | cancel => exact ⟨h.past, h.sent, h.apart⟩
      | wait ms =>
          exact ⟨fun t ht => Nat.le_trans (h.past t ht) (Nat.le_add_right _ _), h.sent, h.apart⟩

end Course

/-- What a source says to the first requests for a challenge. -/
def outcomes (source : Source) (challengeId : String) (n : Nat) : List Outcome :=
  (List.range n).map fun i => outcomeOf (source challengeId i).result

/-- One more request gives one more outcome, that of its own answer. -/
theorem outcomes_succ (source : Source) (challengeId : String) (n : Nat) :
    outcomes source challengeId (n + 1) =
      outcomes source challengeId n ++ [outcomeOf (source challengeId n).result] := by
  simp [outcomes, List.range_succ]

@[simp]
theorem length_outcomes (source : Source) (challengeId : String) (n : Nat) :
    (outcomes source challengeId n).length = n := by
  simp [outcomes]

/-- How the outcomes that were given go back to the requests that were sent. -/
inductive Delivered (source : Source) (c : Collection) : Nat → List Outcome → Prop where
  /-- Every request was answered. -/
  | answers (n : Nat) : Delivered source c n (outcomes source c.challengeId n)
  /-- The time was up before an answer to one more request, which may not even have been sent. -/
  | timedOut {asked n : Nat} (limited : c.maxDuration.isSome) (le : n ≤ asked)
      (le_succ : asked ≤ n + 1) :
      Delivered source c asked (outcomes source c.challengeId n ++ [.timedOut])

variable {n : Nat} {given : List Outcome}

/-- While no outcome is terminal, the outcomes are those of all requests. -/
theorem Delivered.eq_outcomes (h : Delivered source c asked given)
    (hOngoing : ∀ o ∈ given, o.isTerminal = false) :
    given = outcomes source c.challengeId asked := by
  cases h with
  | answers => rfl
  | timedOut limited le le_succ =>
      have hLast : Outcome.timedOut.isTerminal = false := hOngoing _ (by simp)
      cases hLast

/-- The outcomes are those of all requests, or the time was up and its outcome came last, in place
of at most one of them. -/
theorem Delivered.eq_or (h : Delivered source c asked given) :
    given = outcomes source c.challengeId asked ∨ c.maxDuration.isSome ∧
      ∃ n, n ≤ asked ∧ asked ≤ n + 1 ∧
        given = outcomes source c.challengeId n ++ [.timedOut] := by
  cases h with
  | answers => exact .inl rfl
  | timedOut limited le le_succ => exact .inr ⟨limited, _, le, le_succ, rfl⟩

/-- There is an outcome for every request, and at most one more. -/
theorem Delivered.length_le (h : Delivered source c asked given) :
    given.length ≤ asked + 1 ∧ asked ≤ given.length := by
  cases h with
  | answers => simp
  | timedOut limited le le_succ => simp; omega

namespace Course

variable {r : Course} {calls : List Call}

/-- What the outcomes so far say about a collection that was called in some ways. -/
structure Accounted (source : Source) (c : Collection) (calls : List Call) (r : Course) : Prop where
  finished_iff : r.collection.finished = true ↔
    (∃ o ∈ r.results, o.isTerminal = true) ∨ Call.cancel ∈ calls
  /-- No outcome but the last one is terminal. -/
  ongoing : ∀ o ∈ r.results.dropLast, o.isTerminal = false
  named : ∀ q ∈ r.requests, q.challengeId = c.challengeId
  delivered : Delivered source c r.requests.length r.results

/-- Before the first call nothing has been given. -/
theorem accounted_start (source : Source) (hFinished : c.finished = false) (now : Nat) :
    Accounted source c [] (start c now) := by
  constructor
  · simp [start, results, hFinished]
  · simp [start, results]
  · simp [start, requests]
  · exact .answers 0

/-- A collection goes on only as long as it was not cancelled and gave nothing terminal. -/
theorem Accounted.running (h : Accounted source c calls r)
    (hRunning : r.collection.finished = false) :
    (∀ o ∈ r.results, o.isTerminal = false) ∧ Call.cancel ∉ calls ∧
      r.results = outcomes source c.challengeId r.requests.length := by
  have hNot : ¬((∃ o ∈ r.results, o.isTerminal = true) ∨ Call.cancel ∈ calls) := by
    rw [← h.finished_iff, hRunning]
    exact Bool.false_ne_true
  have hOngoing : ∀ o ∈ r.results, o.isTerminal = false := fun o ho =>
    Bool.eq_false_iff.mpr fun hTerminal => hNot (.inl ⟨o, ho, hTerminal⟩)
  exact ⟨hOngoing, fun hCancel => hNot (.inr hCancel), h.delivered.eq_outcomes hOngoing⟩

/-- A turn that gives an outcome finishes the collection exactly if the outcome is terminal. -/
theorem Accounted.gives (h : Accounted source c calls r) (hRunning : r.collection.finished = false)
    {o : Outcome} (hResult : t.result = some o) (hFinished : t.collection.finished = o.isTerminal)
    (hNamed : ∀ q ∈ t.request, q.challengeId = c.challengeId)
    (hDelivered : Delivered source c (r.requests ++ t.request.toList).length
      (outcomes source c.challengeId r.requests.length ++ [o])) :
    Accounted source c (calls ++ [.next]) (r.taken t) := by
  obtain ⟨hOngoing, hCancel, hResults⟩ := h.running hRunning
  have hGiven : (r.taken t).results = r.results ++ [o] := by
    rw [results_taken, hResult]
    rfl
  constructor
  · have hNone : ¬∃ o ∈ r.results, o.isTerminal = true := by
      rintro ⟨o', ho, hTerminal⟩
      cases (hOngoing o' ho).symm.trans hTerminal
    rw [hGiven]
    simp only [taken, hFinished, List.mem_append, List.mem_singleton, or_and_right, exists_or,
      exists_eq_left, hNone, hCancel, false_or, reduceCtorEq, or_false]
  · rw [hGiven, List.dropLast_concat]
    exact hOngoing
  · intro q hq
    rw [requests_taken, List.mem_append, Option.mem_toList] at hq
    rcases hq with hq | hq
    · exact h.named q hq
    · exact hNamed q hq
  · rw [requests_taken, hGiven, hResults]
    exact hDelivered

/-- A call of `next` gives the outcome of its request, or that the time is up, or nothing. -/
theorem Accounted.taken (h : Accounted source c calls r)
    (hSettled : Settled c r) (hMade : Made source r.requests.length now r.collection t) :
    Accounted source c (calls ++ [.next]) (r.taken t) := by
  have hNamed : ∀ q ∈ t.request, q.challengeId = c.challengeId := fun q hq =>
    (hMade.challengeId_request q hq).trans hSettled.challengeId
  cases hMade with
  | spent finished =>
      obtain ⟨hFinished, hOngoing, hNames, hDelivered⟩ := h
      constructor
      · simpa [Course.taken, results] using hFinished
      · simpa using hOngoing
      · simpa using hNames
      · simpa using hDelivered
  | late running scheduled =>
      refine h.gives running rfl rfl hNamed ?_
      have hLimited := hSettled.limited_at scheduled
      exact .timedOut hLimited (by simp) (by simp)
  | cut running scheduled =>
      refine h.gives running rfl rfl hNamed ?_
      have hLimited := hSettled.limited_at scheduled
      exact .timedOut hLimited (by simp) (by simp)
  | answered running =>
      refine h.gives running rfl rfl hNamed ?_
      rw [hSettled.challengeId, ← outcomes_succ]
      simpa using Delivered.answers (r.requests.length + 1)

/-- Cancelling finishes a collection without giving anything. -/
theorem Accounted.cancel (h : Accounted source c calls r) :
    Accounted source c (calls ++ [.cancel]) (r.step source .cancel) := by
  refine ⟨?_, h.ongoing, h.named, h.delivered⟩
  simp [step, Collection.cancel]

theorem Accounted.wait (h : Accounted source c calls r) (ms : Nat) :
    Accounted source c (calls ++ [.wait ms]) (r.step source (.wait ms)) := by
  refine ⟨?_, h.ongoing, h.named, h.delivered⟩
  simpa [step, results] using h.finished_iff

/-- Any course from the start accounts for its requests. -/
theorem accounted_run (source : Source) (hSchedule : c.schedule = none)
    (hFinished : c.finished = false) (now : Nat) (calls : List Call) :
    Accounted source c calls ((start c now).run source calls) := by
  induction calls using List.reverseRecOn with
  | nil => exact accounted_start source hFinished now
  | append_singleton calls call ih =>
      rw [run_append]
      have hSettled : Settled c ((start c now).run source calls) :=
        (settled_start hSchedule now).run calls
      cases call with
      | next => exact ih.taken hSettled (made_turn ..)
      | cancel => exact ih.cancel
      | wait ms => exact ih.wait ms

/-- A finished collection stays so, and nothing more comes of it. -/
theorem run_of_finished (source : Source) (h : r.collection.finished = true) (more : List Call) :
    (r.run source more).collection.finished = true ∧ (r.run source more).results = r.results ∧
      (r.run source more).requests = r.requests := by
  induction more generalizing r with
  | nil => exact ⟨h, rfl, rfl⟩
  | cons call rest ih =>
      cases call with
      | next =>
          have hOver : r.turn source =
              { result := none, request := none, doneAt := r.now, collection := r.collection } := by
            simp [turn, Collection.next, h]
          have hTaken : (r.taken (r.turn source)).collection.finished = true := by
            rw [hOver]
            exact h
          obtain ⟨hFinished, hResults, hRequests⟩ := ih hTaken
          refine ⟨hFinished, hResults.trans ?_, hRequests.trans ?_⟩
          · rw [results_taken, hOver]
            exact List.append_nil _
          · rw [requests_taken, hOver]
            exact List.append_nil _
      | cancel => exact ih rfl
      | wait ms => exact ih h

/-- Of outcomes among which only the last one may be terminal, those before a terminal one come
apart. -/
theorem exists_first_last {given : List Outcome}
    (h : ∀ o ∈ given.dropLast, o.isTerminal = false) :
    ∃ first : List Outcome, ∃ last : Option Outcome, given = first ++ last.toList ∧
      (∀ o ∈ first, o.isTerminal = false) ∧ ∀ o ∈ last, o.isTerminal = true := by
  rcases List.eq_nil_or_concat given with rfl | ⟨first, o, rfl⟩
  · exact ⟨[], none, rfl, by simp, by simp⟩
  · rw [List.concat_eq_append, List.dropLast_concat] at h
    cases hTerminal : o.isTerminal with
    | true => exact ⟨first, some o, by simp, h, by simpa using hTerminal⟩
    | false =>
        have hAll : ∀ x ∈ first ++ [o], x.isTerminal = false := by
          simpa [or_imp, forall_and, hTerminal] using h
        exact ⟨first ++ [o], none, by simp, hAll, by simp⟩

/-- A collection that ended without a cancel has given a terminal outcome, as its last one. -/
theorem Accounted.exists_getLast (h : Accounted source c calls r)
    (hFinished : r.collection.finished = true) (hCancel : Call.cancel ∉ calls) :
    ∃ o, r.results.getLast? = some o ∧ o.isTerminal = true := by
  obtain ⟨o, ho, hTerminal⟩ := (h.finished_iff.mp hFinished).resolve_right hCancel
  rcases List.eq_nil_or_concat r.results with hNone | ⟨first, last, hResults⟩
  · simp [hNone] at ho
  · rw [List.concat_eq_append] at hResults
    refine ⟨last, by simp [hResults], ?_⟩
    have hOngoing := h.ongoing
    rw [hResults, List.dropLast_concat] at hOngoing
    rw [hResults, List.mem_append, List.mem_singleton] at ho
    rcases ho with ho | rfl
    · cases (hOngoing o ho).symm.trans hTerminal
    · exact hTerminal

/-- The law of a collection over any course of calls. All outcomes but perhaps the last are such
that others can follow. After a terminal outcome or a cancel, and only then, the collection is
finished and gives nothing more, and no request is ever sent again. Requests are sent one at a time,
all for the one challenge, and the outcomes are what the source says to them one by one, except that
the last one is that the time is up if that came first. No call of `next` fails. -/
theorem course_law (k : Collector) (challengeId : String) (hInterval : 0 < k.interval) (now : Nat)
    (calls : List Call) :
    let r := (start (k.poll challengeId) now).run k.source calls
    let ended := (∃ o ∈ r.results, o.isTerminal = true) ∨ Call.cancel ∈ calls
    (∃ first : List Outcome, ∃ last : Option Outcome, r.results = first ++ last.toList ∧
      (∀ o ∈ first, o.isTerminal = false) ∧ ∀ o ∈ last, o.isTerminal = true) ∧
    (r.collection.finished = true ↔ ended) ∧
    ((r.turn k.source).result = none ↔ ended) ∧
    (ended → ∀ more, let r' := r.run k.source more
      r'.collection.finished = true ∧ (r'.turn k.source).result = none ∧
        r'.results = r.results ∧ r'.requests = r.requests) ∧
    (∀ q ∈ r.requests, q.challengeId = challengeId) ∧
    ((∀ t ∈ r.turns, ∀ q ∈ t.request, q.sentAt ≤ t.doneAt) ∧
      r.turns.Pairwise fun s t => ∀ q ∈ t.request, s.doneAt ≤ q.sentAt) ∧
    (r.results = outcomes k.source challengeId r.requests.length ∨
      k.maxDuration.isSome ∧ ∃ n, n ≤ r.requests.length ∧ r.requests.length ≤ n + 1 ∧
        r.results = outcomes k.source challengeId n ++ [.timedOut]) ∧
    r.collection.isStuck = false := by
  intro r ended
  have hSettled : Settled (k.poll challengeId) r := (settled_start rfl now).run calls
  have hInTurn : InTurn r := (inTurn_start _ now).run calls
  have hAccounted : Accounted k.source (k.poll challengeId) calls r :=
    accounted_run k.source rfl rfl now calls
  have hNone : ∀ r' : Course, (r'.turn k.source).result = none ↔ r'.collection.finished = true :=
    fun r' => (made_turn k.source r').result_eq_none_iff
  refine ⟨exists_first_last hAccounted.ongoing, hAccounted.finished_iff,
    (hNone r).trans hAccounted.finished_iff, fun hEnded more => ?_, hAccounted.named,
    ⟨hInTurn.sent, hInTurn.apart⟩, ?_, ?_⟩
  · obtain ⟨hFinished, hResults, hRequests⟩ :=
      run_of_finished k.source (hAccounted.finished_iff.mpr hEnded) more
    exact ⟨hFinished, (hNone _).mpr hFinished, hResults, hRequests⟩
  · exact hAccounted.delivered.eq_or
  · exact isStuck_eq_false (hSettled.interval.symm ▸ hInterval)

/-- A source that answers once and cannot be reached again. -/
def brittle : Collector where
  source := .ofScript [{ result := .ok .viewed, delay := 3 }, { result := .error .closed }]
  interval := 10
  maxDuration := some 100

/-- A failure of the network is the last outcome. -/
theorem brittle_course :
    let r := (start (brittle.poll "c") 0).run brittle.source [.next, .wait 30, .next, .next]
    0 < brittle.interval ∧
      r.requests = [{ challengeId := "c", sentAt := 10 }, { challengeId := "c", sentAt := 43 }] ∧
      r.results = [.viewed, .error Outcome.transportCode "Connection closed"] ∧
      (r.turn brittle.source).result = none := by
  intro r
  have hInterval : 0 < brittle.interval := by decide
  have hResults : r.results = [.viewed, .error Outcome.transportCode "Connection closed"] := rfl
  have hLast : .error Outcome.transportCode "Connection closed" ∈ r.results := by
    rw [hResults]
    exact List.mem_cons_of_mem _ List.mem_cons_self
  obtain ⟨-, -, hNone, -⟩ :=
    course_law brittle "c" hInterval 0 [.next, .wait 30, .next, .next]
  exact ⟨hInterval, rfl, hResults, hNone.mpr (.inl ⟨_, hLast, rfl⟩)⟩

end Course

end RemoteSigning.Collection
