import Mathlib.Algebra.Order.Floor.Div
import RemoteSigning.Proofs.Collection.Interfaces

/-!
# Answers that take no time

A source that answers at once leaves a collection in step with its ticks: the request for the next
outcome goes out at each of them, at multiples of the interval. So what collecting comes to can be
told from the script of the source, the interval and the limit alone.
-/

namespace RemoteSigning.Collection

/-- A tick that is waited for comes when it is due. -/
theorem tickAt_of_le {due now : Nat} (h : now ≤ due) : tickAt due now = due := Nat.max_eq_left h

/-- If it did, the next one is due an interval later. -/
theorem tickAfter_of_le {due now : Nat} (h : now ≤ due) (interval : Nat) :
    tickAfter interval due now = due + interval := by
  rw [tickAfter, tickAt_of_le h, if_neg (by omega)]

/-- The first tick at which the time is up, where ticks are counted from 1. -/
def lastTick (interval limit : Nat) : Nat := max 1 (limit ⌈/⌉ interval)

variable {interval limit : Nat}

/-- The first tick comes before the time is up, however short it is. -/
theorem one_le_lastTick (interval limit : Nat) : 1 ≤ lastTick interval limit := Nat.le_max_left ..

/-- A tick is not the last one exactly if it comes before the limit. -/
theorem lt_lastTick_iff (hInterval : 0 < interval) (limit n : Nat) :
    n + 1 < lastTick interval limit ↔ (n + 1) * interval < limit := by
  have hCeil : limit ⌈/⌉ interval ≤ n + 1 ↔ limit ≤ (n + 1) * interval := by
    rw [ceilDiv_le_iff_le_smul hInterval, smul_eq_mul, Nat.mul_comm]
  rw [lastTick, lt_max_iff, ← not_le, ← not_le, ← not_le (a := limit), hCeil]
  simp

/-- The requests at the first ticks. -/
def asks (challengeId : String) (began interval n : Nat) : List Request :=
  (List.range n).map fun i => { challengeId, sentAt := began + (i + 1) * interval }

/-- One request comes with one more tick. -/
theorem asks_succ (challengeId : String) (began interval n : Nat) :
    asks challengeId began interval (n + 1) = asks challengeId began interval n ++
      [{ challengeId, sentAt := began + (n + 1) * interval }] := by
  simp [asks, List.range_succ]

namespace Course

variable {k : Collector} {challengeId : String} {began n : Nat} {r : Course}

/-- A course that has just handled a number of ticks, with a request at each of them. -/
structure AtTick (k : Collector) (challengeId : String) (began n : Nat) (r : Course) : Prop where
  running : r.collection.finished = false
  challengeId_eq : r.collection.challengeId = challengeId
  interval_eq : r.collection.interval = k.interval
  now_eq : r.now = began + n * k.interval
  scheduled : r.collection.scheduleAt r.now =
    (began + (n + 1) * k.interval, k.maxDuration.map (began + ·))
  requests_eq : r.requests = asks challengeId began k.interval n

/-- Before the first call no tick has been handled. -/
theorem atTick_start (k : Collector) (challengeId : String) (began : Nat) :
    AtTick k challengeId began 0 (start (k.poll challengeId) began) := by
  constructor
  · rfl
  · rfl
  · rfl
  · rw [Nat.zero_mul]
    rfl
  · rw [Nat.one_mul]
    rfl
  · rfl

/-- What the source says to a request. -/
def said (k : Collector) (challengeId : String) (n : Nat) : Outcome :=
  outcomeOf (k.source challengeId n).result

/-- There have been as many requests as ticks. -/
theorem AtTick.length_requests (h : AtTick k challengeId began n r) : r.requests.length = n := by
  simp [h.requests_eq, asks]

/-- The next tick has not come yet. -/
theorem AtTick.now_le (h : AtTick k challengeId began n r) :
    r.now ≤ began + (n + 1) * k.interval := by
  rw [h.now_eq]
  exact Nat.add_le_add_left (Nat.mul_le_mul_right _ (Nat.le_succ n)) began

/-- At a tick before the time is up the source is asked, and its answer is the outcome. -/
theorem AtTick.turn_answered (h : AtTick k challengeId began n r)
    (hInstant : (k.source challengeId n).delay = 0)
    (hEarly : ∀ d ∈ k.maxDuration, (n + 1) * k.interval < d) :
    r.turn k.source =
      { result := some (said k challengeId n)
        request := some { challengeId, sentAt := began + (n + 1) * k.interval }
        doneAt := began + (n + 1) * k.interval
        collection :=
          { challengeId
            interval := k.interval
            maxDuration := r.collection.maxDuration
            schedule := some (began + (n + 1 + 1) * k.interval, k.maxDuration.map (began + ·))
            finished := (said k challengeId n).isTerminal } } := by
  have hTick := tickAt_of_le h.now_le
  have hBefore : ∀ {due deadline : Nat},
      r.collection.scheduleAt r.now = (due, some deadline) → tickAt due r.now < deadline := by
    intro due deadline hScheduled
    obtain ⟨rfl, hDeadline⟩ := Prod.mk.inj (h.scheduled.symm.trans hScheduled)
    obtain ⟨d, hLimit, rfl⟩ := Option.map_eq_some_iff.mp hDeadline
    rw [hTick]
    exact Nat.add_lt_add_left (hEarly d hLimit) began
  have hMade := made_turn k.source r
  rw [h.length_requests] at hMade
  generalize r.turn k.source = t at hMade ⊢
  cases hMade with
  | spent finished => cases h.running.symm.trans finished
  | late running scheduled up => exact absurd (hBefore scheduled) (Nat.not_lt.mpr up)
  | cut running scheduled inTime slow =>
      rw [h.challengeId_eq, hInstant] at slow
      exact absurd inTime (Nat.lt_asymm slow)
  | answered running scheduled inTime =>
      obtain ⟨rfl, rfl⟩ := Prod.mk.inj (h.scheduled.symm.trans scheduled)
      have hNext : began + (n + 1) * k.interval + k.interval = began + (n + 1 + 1) * k.interval := by
        rw [Nat.add_assoc, ← Nat.succ_mul]
      rw [h.challengeId_eq, h.interval_eq, hInstant, hTick, tickAfter_of_le h.now_le, hNext]
      rfl

/-- At the first tick at or after the deadline nothing is asked. -/
theorem AtTick.turn_late (h : AtTick k challengeId began n r) {d : Nat}
    (hLimit : k.maxDuration = some d) (hLate : d ≤ (n + 1) * k.interval) :
    (r.turn k.source).result = some .timedOut ∧ (r.turn k.source).request = none ∧
      (r.turn k.source).doneAt = began + (n + 1) * k.interval ∧
      (r.turn k.source).collection.finished = true := by
  have hUp : began + d ≤ tickAt (began + (n + 1) * k.interval) r.now := by
    rw [tickAt_of_le h.now_le]
    exact Nat.add_le_add_left hLate began
  have hScheduled := h.scheduled
  rw [hLimit, Option.map_some] at hScheduled
  have hMade := made_turn k.source r
  generalize r.turn k.source = t at hMade ⊢
  cases hMade with
  | spent finished => cases h.running.symm.trans finished
  | late running scheduled up =>
      obtain ⟨rfl, -⟩ := Prod.mk.inj (hScheduled.symm.trans scheduled)
      exact ⟨rfl, rfl, tickAt_of_le h.now_le, rfl⟩
  | cut running scheduled inTime =>
      cases hScheduled.symm.trans scheduled
      exact absurd inTime (Nat.not_lt.mpr hUp)
  | answered running scheduled inTime =>
      cases hScheduled.symm.trans scheduled
      exact absurd (inTime _ rfl).1 (Nat.not_lt.mpr hUp)

/-- After an outcome that others can follow, the course is at the next tick. -/
theorem AtTick.taken (h : AtTick k challengeId began n r)
    (hInstant : (k.source challengeId n).delay = 0)
    (hEarly : ∀ d ∈ k.maxDuration, (n + 1) * k.interval < d)
    (hOngoing : (said k challengeId n).isTerminal = false) :
    AtTick k challengeId began (n + 1) (r.taken (r.turn k.source)) := by
  rw [h.turn_answered hInstant hEarly]
  constructor
  · exact hOngoing
  · rfl
  · rfl
  · rfl
  · rfl
  · rw [requests_taken, h.requests_eq, asks_succ]
    rfl

/-- A collection stays in step with its ticks until the time is up or an outcome is terminal. -/
theorem atTick_run (began : Nat) (hInterval : 0 < k.interval)
    (hInstant : ∀ i, (k.source challengeId i).delay = 0)
    (hEarly : ∀ d ∈ k.maxDuration, n < lastTick k.interval d)
    (hOngoing : ∀ i < n, (said k challengeId i).isTerminal = false) :
    AtTick k challengeId began n
      ((start (k.poll challengeId) began).run k.source (List.replicate n .next)) := by
  induction n with
  | zero => exact atTick_start k challengeId began
  | succ n ih =>
      have hBefore := ih (fun d hd => Nat.lt_of_succ_lt (hEarly d hd))
        (fun i hi => hOngoing i (Nat.lt_succ_of_lt hi))
      rw [List.replicate_succ', run_append]
      apply hBefore.taken (hInstant n)
      · intro d hd
        exact (lt_lastTick_iff hInterval d n).mp (hEarly d hd)
      · exact hOngoing n (Nat.lt_succ_self n)

end Course

open Course

/-- Collecting ends with a summary. -/
def Returns (k : Collector) (challengeId : String) (now : Nat) (s : Summary) : Prop :=
  ∃ n, (((start (k.poll challengeId) now).run k.source (List.replicate n .next)).turn
      k.source).result = none ∧
    ∀ m, n ≤ m → k.collect challengeId m now = s

variable {k : Collector} {challengeId : String} {now n : Nat}

/-- If the next turn is the last one, collecting ends with it. -/
theorem returns_of_last {r : Course}
    (hRun : (start (k.poll challengeId) now).run k.source (List.replicate n .next) = r) {o : Outcome}
    (hResult : (r.turn k.source).result = some o)
    (hFinished : (r.turn k.source).collection.finished = true) :
    Returns k challengeId now
      { outcome := o
        requests := r.requests ++ (r.turn k.source).request.toList
        doneAt := (r.turn k.source).doneAt } := by
  have hLast : (start (k.poll challengeId) now).run k.source (List.replicate (n + 1) .next) =
      r.taken (r.turn k.source) := by
    rw [List.replicate_succ', run_append, hRun]
    rfl
  refine ⟨n + 1, ?_, fun m hm => ?_⟩
  · rw [hLast]
    exact (made_turn ..).result_eq_none_iff.mpr hFinished
  · obtain ⟨more, rfl⟩ := Nat.exists_eq_add_of_le hm
    rw [collect_eq_summary, ← List.replicate_append_replicate, run_append, hLast,
      summary_run_of_finished hFinished, summary_taken now r hResult, Summary.add, hResult]
    rfl

/-- If an answer before the limit is the first that is terminal, it is what collecting ends with. -/
theorem returns_outcome (hInterval : 0 < k.interval)
    (hInstant : ∀ i, (k.source challengeId i).delay = 0)
    (hEarly : ∀ d ∈ k.maxDuration, n + 1 < lastTick k.interval d)
    (hOngoing : ∀ i < n, (said k challengeId i).isTerminal = false)
    (hTerminal : (said k challengeId n).isTerminal = true) :
    Returns k challengeId now
      { outcome := said k challengeId n
        requests := asks challengeId now k.interval (n + 1)
        doneAt := now + (n + 1) * k.interval } := by
  have hTick := atTick_run now hInterval hInstant
    (fun d hd => Nat.lt_of_succ_lt (hEarly d hd)) hOngoing
  have hTurn := hTick.turn_answered (hInstant n)
    (fun d hd => (lt_lastTick_iff hInterval d n).mp (hEarly d hd))
  have hReturns := returns_of_last (o := said k challengeId n) rfl (by rw [hTurn])
    (by rw [hTurn, hTerminal])
  rw [hTurn, hTick.requests_eq] at hReturns
  rw [asks_succ]
  exact hReturns

/-- If no answer before the limit is terminal, collecting ends because the time is up. -/
theorem returns_timedOut (hInterval : 0 < k.interval)
    (hInstant : ∀ i, (k.source challengeId i).delay = 0) {d : Nat} (hLimit : k.maxDuration = some d)
    (hLast : lastTick k.interval d = n + 1)
    (hOngoing : ∀ i < n, (said k challengeId i).isTerminal = false) :
    Returns k challengeId now
      { outcome := .timedOut
        requests := asks challengeId now k.interval n
        doneAt := now + (n + 1) * k.interval } := by
  have hEarly : ∀ d' ∈ k.maxDuration, n < lastTick k.interval d' := by
    intro d' hd
    obtain rfl := Option.some.inj (hLimit.symm.trans hd)
    rw [hLast]
    exact Nat.lt_succ_self n
  have hLate : d ≤ (n + 1) * k.interval := by
    rw [← Nat.not_lt, ← lt_lastTick_iff hInterval, hLast]
    exact Nat.lt_irrefl _
  have hTick := atTick_run now hInterval hInstant hEarly hOngoing
  obtain ⟨hResult, hRequest, hDone, hFinished⟩ := hTick.turn_late hLimit hLate
  have hReturns := returns_of_last rfl hResult hFinished
  rw [hRequest, hDone, hTick.requests_eq, Option.toList_none, List.append_nil] at hReturns
  exact hReturns

/-- Without a limit and without a terminal answer, collecting does not end. -/
theorem not_returns (hInterval : 0 < k.interval)
    (hInstant : ∀ i, (k.source challengeId i).delay = 0) (hNone : k.maxDuration = none)
    (hOngoing : ∀ i, (said k challengeId i).isTerminal = false) (s : Summary) :
    ¬Returns k challengeId now s := by
  rintro ⟨n, hOver, -⟩
  have hTick := atTick_run (n := n) now hInterval hInstant
    (fun d hd => nomatch hNone.symm.trans hd) (fun i _ => hOngoing i)
  have hFinished := (made_turn ..).result_eq_none_iff.mp hOver
  cases hTick.running.symm.trans hFinished

/-- Answers of a source that take no time. -/
abbrev Script := List (Except TransportFailure Outcome)

/-- A collector whose source answers by a script, without delay, and then says that nothing has
happened. -/
def prompt (script : Script) (interval : Nat) (maxDuration : Option Nat) : Collector where
  source := .ofScript (script.map fun result => { result })
  interval
  maxDuration

/-- The first terminal outcome of a script, with its position, which is counted from 1. -/
inductive FirstTerminal : Script → Nat → Outcome → Prop
  | head {result : Except TransportFailure Outcome} {rest : Script}
      (terminal : (outcomeOf result).isTerminal = true) :
      FirstTerminal (result :: rest) 1 (outcomeOf result)
  | tail {result : Except TransportFailure Outcome} {rest : Script} {m : Nat} {o : Outcome}
      (ongoing : (outcomeOf result).isTerminal = false) (later : FirstTerminal rest m o) :
      FirstTerminal (result :: rest) (m + 1) o

/-- The outcome at a position of a script, which is counted from 0. -/
def outcomeAt (script : Script) (n : Nat) : Outcome :=
  outcomeOf (script[n]?.getD (.ok .pending))

variable {script : Script} {maxDuration : Option Nat} {m : Nat} {o : Outcome}

theorem source_prompt (script : Script) (interval : Nat) (maxDuration : Option Nat)
    (challengeId : String) (n : Nat) :
    (prompt script interval maxDuration).source challengeId n =
      { result := script[n]?.getD (.ok .pending) } := by
  simp only [prompt, Source.ofScript, List.getD_eq_getElem?_getD, List.getElem?_map]
  cases script[n]? <;> rfl

/-- The answers that are given at once are those of the script, and after its end that nothing has
happened. -/
theorem said_prompt (script : Script) (interval : Nat) (maxDuration : Option Nat)
    (challengeId : String) (n : Nat) :
    said (prompt script interval maxDuration) challengeId n = outcomeAt script n := by
  rw [said, source_prompt, outcomeAt]

theorem FirstTerminal.exists_outcomeAt (h : FirstTerminal script m o) :
    ∃ n, m = n + 1 ∧ outcomeAt script n = o ∧ o.isTerminal = true ∧
      ∀ i < n, (outcomeAt script i).isTerminal = false := by
  induction h with
  | head terminal => exact ⟨0, rfl, rfl, terminal, nofun⟩
  | tail ongoing _ ih =>
      obtain ⟨n, rfl, hOutcome, hTerminal, hBefore⟩ := ih
      refine ⟨n + 1, rfl, hOutcome, hTerminal, fun i hi => ?_⟩
      cases i with
      | zero => exact ongoing
      | succ i => exact hBefore i (Nat.lt_of_succ_lt_succ hi)

/-- There is only one first terminal outcome. -/
theorem FirstTerminal.position_eq (h : FirstTerminal script m o) {m' : Nat} {o' : Outcome}
    (h' : FirstTerminal script m' o') : m = m' := by
  induction h generalizing m' with
  | head terminal =>
      cases h' with
      | head _ => rfl
      | tail ongoing _ => cases ongoing.symm.trans terminal
  | tail ongoing _ ih =>
      cases h' with
      | head terminal => cases ongoing.symm.trans terminal
      | tail _ later => exact congrArg Nat.succ (ih later)

/-- A terminal outcome is the first one, or comes after it. -/
theorem exists_firstTerminal {i : Nat} (h : (outcomeAt script i).isTerminal = true) :
    ∃ m o, FirstTerminal script m o ∧ m ≤ i + 1 := by
  induction script generalizing i with
  | nil => cases h
  | cons result rest ih =>
      cases hResult : (outcomeOf result).isTerminal with
      | true => exact ⟨1, _, .head hResult, Nat.le_add_left 1 i⟩
      | false =>
          cases i with
          | zero => cases hResult.symm.trans h
          | succ i =>
              obtain ⟨m, o, hFirst, hLe⟩ := ih h
              exact ⟨m + 1, o, .tail hResult hFirst, Nat.succ_le_succ hLe⟩

theorem ongoing_of_firstTerminal {i : Nat} (h : ∀ m o, FirstTerminal script m o → i + 1 < m) :
    (outcomeAt script i).isTerminal = false := by
  rw [← Bool.not_eq_true]
  intro hTerminal
  obtain ⟨m, o, hFirst, hLe⟩ := exists_firstTerminal hTerminal
  exact absurd (h m o hFirst) (Nat.not_lt.mpr hLe)

/-- What collecting comes to when the source answers by a script, without delay. If the first
terminal outcome comes before the last tick of the limit, or if there is no limit, collecting returns
that outcome, at its tick and with a request at each tick so far. If the limit is up before, it
returns that at the last tick, at which nothing is asked any more. And if nothing ends it, it does not
return. -/
theorem collect_closed_form (script : Script) (challengeId : String) {interval : Nat}
    (hInterval : 0 < interval) (maxDuration : Option Nat) (now : Nat) :
    (∀ m o, FirstTerminal script m o → (∀ d ∈ maxDuration, m < lastTick interval d) →
      Returns (prompt script interval maxDuration) challengeId now
        { outcome := o
          requests := asks challengeId now interval m
          doneAt := now + m * interval }) ∧
    (∀ d ∈ maxDuration, (∀ m o, FirstTerminal script m o → lastTick interval d ≤ m) →
      Returns (prompt script interval maxDuration) challengeId now
        { outcome := .timedOut
          requests := asks challengeId now interval (lastTick interval d - 1)
          doneAt := now + lastTick interval d * interval }) ∧
    (maxDuration = none → (∀ m o, ¬FirstTerminal script m o) →
      ∀ s, ¬Returns (prompt script interval maxDuration) challengeId now s) := by
  have hInstant : ∀ i, ((prompt script interval maxDuration).source challengeId i).delay = 0 := by
    intro i
    rw [source_prompt]
  have hSaid := said_prompt script interval maxDuration challengeId
  refine ⟨fun m o hFirst hEarly => ?_, fun d hLimit hFirst => ?_, fun hNone hNever => ?_⟩
  · obtain ⟨n, rfl, rfl, hTerminal, hBefore⟩ := hFirst.exists_outcomeAt
    rw [← hSaid] at hTerminal ⊢
    apply returns_outcome hInterval hInstant hEarly ?_ hTerminal
    intro i hi
    rw [hSaid]
    exact hBefore i hi
  · obtain ⟨n, hLast⟩ := Nat.exists_eq_add_of_le' (one_le_lastTick interval d)
    rw [hLast, Nat.add_sub_cancel]
    apply returns_timedOut hInterval hInstant hLimit hLast
    intro i hi
    rw [hSaid]
    apply ongoing_of_firstTerminal
    intro m o hTerminal
    have hLe := hFirst m o hTerminal
    omega
  · apply not_returns hInterval hInstant hNone
    intro i
    rw [hSaid]
    exact ongoing_of_firstTerminal fun m o hFirst => absurd hFirst (hNever m o)

/-- A rejection at the third request. -/
def slowRejection : Script := [.ok .pending, .ok .viewed, .ok .rejected]

/-- The limit makes a difference at a tick that is just when the time is up, and only there. -/
theorem slowRejection_limits :
    0 < 300 ∧
    Returns (prompt slowRejection 300 (some 901)) "c" 7
      { outcome := .rejected, requests := asks "c" 7 300 3, doneAt := 907 } ∧
    Returns (prompt slowRejection 300 (some 900)) "c" 7
      { outcome := .timedOut, requests := asks "c" 7 300 2, doneAt := 907 } ∧
    ∀ s, ¬Returns (prompt [.ok .viewed] 300 none) "c" 7 s := by
  have hInterval : 0 < 300 := by decide
  have hFirst : FirstTerminal slowRejection 3 .rejected := .tail rfl (.tail rfl (.head rfl))
  have hLong : lastTick 300 901 = 4 := by decide
  have hShort : lastTick 300 900 = 3 := by decide
  and_intros
  · exact hInterval
  · apply (collect_closed_form slowRejection "c" hInterval (some 901) 7).1 3 .rejected hFirst
    intro d hd
    rw [← Option.some.inj hd, hLong]
    decide
  · have hReturns := (collect_closed_form slowRejection "c" hInterval (some 900) 7).2.1 900 rfl
    rw [hShort] at hReturns
    apply hReturns
    intro m o hFirst'
    exact Nat.le_of_eq (hFirst.position_eq hFirst')
  · apply (collect_closed_form [.ok .viewed] "c" hInterval none 7).2.2 rfl
    intro m o hFirst'
    cases hFirst' with
    | head terminal => cases terminal
    | tail _ later => cases later

end RemoteSigning.Collection
