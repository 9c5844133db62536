import RemoteSigning.Proofs.Collection.Courses
import Mathlib.Logic.Relation

/-!
# What a task does

A task acts as long as it can, and otherwise waits: for the end of its turn, or for room in the
channel. `Step` says once what a single act can be. Between two acts of its owner a task makes only
few of them and ends only few turns, fewer than the bounds in its definition: it always settles,
sleeping lets it do all that there is to do, and receiving comes back without an outcome only from a
task that has ended. So what `Advance` keeps holds whenever the owner looks.
-/

namespace RemoteSigning.Collection

namespace Task

variable {source : Source} {t t' : Task}

/-- All that a task can do without letting time pass. -/
inductive Step (source : Source) (t : Task) : Task → Prop where
  | stuck {c : Collection} (resting : t.phase = .resting c) (stuck : c.isStuck = true) :
      Step source t { t with phase := .ended }
  | begun {c : Collection} (resting : t.phase = .resting c) (free : c.isStuck = false) :
      Step source t { t with phase := .turning (c.next source t.sent.length t.now) }
  /-- The outcome of a turn goes into the channel. -/
  | filled {turn : Turn} {o : Outcome} (turning : t.phase = .turning turn)
      (due : turn.doneAt ≤ t.now) (result : turn.result = some o) (room : t.channel = none) :
      Step source t { t with
        channel := some o, phase := .resting turn.collection
        sent := t.sent ++ turn.request.toList }
  /-- There is no room for the outcome of a turn. -/
  | held {turn : Turn} {o x : Outcome} (turning : t.phase = .turning turn)
      (due : turn.doneAt ≤ t.now) (result : turn.result = some o) (full : t.channel = some x) :
      Step source t { t with
        phase := .holding o turn.collection, sent := t.sent ++ turn.request.toList }
  | closed {turn : Turn} (turning : t.phase = .turning turn) (due : turn.doneAt ≤ t.now)
      (result : turn.result = none) :
      Step source t { t with phase := .ended, sent := t.sent ++ turn.request.toList }
  /-- The outcome that was held goes into the channel. -/
  | released {o : Outcome} {c : Collection} (holding : t.phase = .holding o c)
      (room : t.channel = none) :
      Step source t { t with channel := some o, phase := .resting c }

/-- When a task has to wait. -/
inductive Idle (t : Task) : Prop where
  | waiting {turn : Turn} (turning : t.phase = .turning turn) (early : t.now < turn.doneAt)
  | blocked {o x : Outcome} {c : Collection} (holding : t.phase = .holding o c)
      (full : t.channel = some x)
  | ended (ended : t.phase = .ended)

/-- A task can do something or has to wait. -/
theorem step_or_idle (source : Source) (t : Task) :
    (∃ t', t.step source = some t' ∧ Step source t t') ∨ t.step source = none ∧ Idle t := by
  cases hPhase : t.phase with
  | resting c =>
      cases hStuck : c.isStuck with
      | true => exact .inl ⟨_, by simp [step, hPhase, hStuck], .stuck hPhase hStuck⟩
      | false => exact .inl ⟨_, by simp [step, hPhase, hStuck], .begun hPhase hStuck⟩
  | turning turn =>
      by_cases hEarly : t.now < turn.doneAt
      · exact .inr ⟨by simp [step, hPhase, hEarly], .waiting hPhase hEarly⟩
      · have hDue : turn.doneAt ≤ t.now := Nat.le_of_not_lt hEarly
        cases hResult : turn.result with
        | none =>
            exact .inl ⟨_, by simp [step, hPhase, hEarly, hResult], .closed hPhase hDue hResult⟩
        | some o =>
            cases hChannel : t.channel with
            | none =>
                exact .inl ⟨_, by simp [step, hPhase, hEarly, hResult, deliver, hChannel],
                  .filled hPhase hDue hResult hChannel⟩
            | some x =>
                exact .inl ⟨_, by simp [step, hPhase, hEarly, hResult, deliver, hChannel],
                  .held hPhase hDue hResult hChannel⟩
  | holding o c =>
      cases hChannel : t.channel with
      | none =>
          exact .inl ⟨_, by simp [step, hPhase, deliver, hChannel], .released hPhase hChannel⟩
      | some x => exact .inr ⟨by simp [step, hPhase, hChannel], .blocked hPhase hChannel⟩
  | ended => exact .inr ⟨by simp [step, hPhase], .ended hPhase⟩

theorem Step.eq_some (h : Step source t t') : t.step source = some t' := by
  have hDue : ∀ turn : Turn, turn.doneAt ≤ t.now → ¬t.now < turn.doneAt := fun _ => Nat.not_lt.mpr
  cases h <;> simp_all [step, deliver]

/-- `Step` is what a task does, no more and no less. -/
theorem step_eq_some_iff : t.step source = some t' ↔ Step source t t' := by
  constructor
  · intro h
    rcases step_or_idle source t with ⟨u, hSome, hStep⟩ | ⟨hNone, -⟩
    · cases h.symm.trans hSome
      exact hStep
    · cases h.symm.trans hNone
  · exact Step.eq_some

/-- A task does nothing exactly when it has to wait. -/
theorem step_eq_none_iff : t.step source = none ↔ Idle t := by
  constructor
  · intro h
    rcases step_or_idle source t with ⟨u, hSome, -⟩ | ⟨-, hIdle⟩
    · cases h.symm.trans hSome
    · exact hIdle
  · intro h
    cases h <;> simp_all [step]

/-- What a task does takes no time. -/
theorem Step.now_eq (h : Step source t t') : t'.now = t.now := by
  cases h <;> rfl

/-- What is in the channel stays there until the owner takes it. -/
theorem Step.channel_eq (h : Step source t t') {x : Outcome} (hFull : t.channel = some x) :
    t'.channel = some x := by
  cases h <;> simp_all

/-- How many outcomes there is room for in the channel. -/
def room (t : Task) : Nat := if t.channel.isNone then 1 else 0

/-- A bound on the steps of a task before time has to pass. -/
def work (t : Task) : Nat :=
  match t.phase with
  | .resting _ => 2 + 2 * t.room
  | .turning _ => 1 + 2 * t.room
  | .holding _ _ => 3 * t.room
  | .ended => 0

/-- The channel holds one outcome. -/
theorem room_le (t : Task) : t.room ≤ 1 := by
  unfold room
  split <;> decide

theorem work_le (t : Task) : t.work ≤ 4 := by
  have hRoom := t.room_le
  unfold work
  split <;> omega

/-- Every step leaves less to do, which is why a task settles. -/
theorem Step.work_lt (h : Step source t t') : t'.work < t.work := by
  cases h with
  | stuck resting => simp only [work, resting]; omega
  | begun resting => simp only [work, resting, room]; omega
  | filled turning _ _ room => simp [work, turning, Task.room, room]
  | held turning _ _ full => simp [work, turning, Task.room, full]
  | closed turning => simp only [work, turning]; omega
  | released holding room => simp [work, holding, Task.room, room]

/-- A task that has to wait is settled already. -/
theorem settleWithin_of_idle (h : t.step source = none) (n : Nat) :
    t.settleWithin source n = t := by
  cases n with
  | zero => rfl
  | succ n => simp [settleWithin, h]

theorem settleWithin_succ_of_step (h : t.step source = some t') (n : Nat) :
    t.settleWithin source (n + 1) = t'.settleWithin source n := by
  simp [settleWithin, h]

/-- As many steps as there is work are enough. -/
theorem settleWithin_enough {n : Nat} (h : t.work ≤ n) :
    (t.settleWithin source n).step source = none ∧
      t.settleWithin source (n + 1) = t.settleWithin source n := by
  induction n generalizing t with
  | zero =>
      have hIdle : t.step source = none := by
        refine Option.eq_none_iff_forall_ne_some.mpr fun t' hStep => ?_
        have hLess := (step_eq_some_iff.mp hStep).work_lt
        omega
      exact ⟨hIdle, settleWithin_of_idle hIdle 1⟩
  | succ n ih =>
      cases hStep : t.step source with
      | none =>
          rw [settleWithin_of_idle hStep, settleWithin_of_idle hStep]
          exact ⟨hStep, rfl⟩
      | some t' =>
          have hLess := (step_eq_some_iff.mp hStep).work_lt
          rw [settleWithin_succ_of_step hStep, settleWithin_succ_of_step hStep]
          exact ih (by omega)

/-- A settled task has to wait. -/
theorem idle_settle (source : Source) (t : Task) : Idle (t.settle source) :=
  step_eq_none_iff.mp (settleWithin_enough (Nat.le_trans t.work_le (by decide))).1

/-- Settling changes nothing about a task that has to wait. -/
theorem Idle.settle_eq (h : Idle t) : t.settle source = t :=
  settleWithin_of_idle (step_eq_none_iff.mpr h) _

/-- It makes no difference to the settled task whether a step is made before. -/
theorem Step.settle_eq (h : Step source t t') : t.settle source = t'.settle source := by
  have hWork : t'.work ≤ 7 := Nat.le_trans t'.work_le (by decide)
  exact (settleWithin_succ_of_step h.eq_some 7).trans (settleWithin_enough hWork).2.symm

/-- What every step keeps holds of the settled task. -/
theorem settle_induction {P : Task → Prop} (h : P t)
    (hStep : ∀ u v, Step source u v → P u → P v) : P (t.settle source) := by
  unfold settle
  generalize stepLimit = n
  induction n generalizing t with
  | zero => exact h
  | succ n ih =>
      rw [settleWithin]
      split
      · rename_i t' hSome
        exact ih (hStep t t' (step_eq_some_iff.mp hSome) h)
      · exact h

@[simp]
theorem now_settle (source : Source) (t : Task) : (t.settle source).now = t.now :=
  settle_induction (P := fun u => u.now = t.now) rfl fun _ _ hStep hNow => hStep.now_eq.trans hNow

/-- What can come next for a task while its owner waits: it does something, or time passes, but not
beyond the end of its turn. -/
inductive Advance (source : Source) (t : Task) : Task → Prop where
  | act {t' : Task} (step : Step source t t') : Advance source t t'
  | pass {now : Nat} (idle : Idle t) (later : t.now ≤ now) (early : ∀ w ∈ t.wakesAt, now ≤ w) :
      Advance source t { t with now }

/-- What a task can become while its owner waits. -/
abbrev Reaches (source : Source) : Task → Task → Prop := Relation.ReflTransGen (Advance source)

/-- Settling is only a matter of steps. -/
theorem reaches_settle (source : Source) (t : Task) : Reaches source t (t.settle source) :=
  settle_induction .refl fun _ _ hStep hReach => hReach.tail (.act hStep)

/-- A bound on the turns that can end before the owner takes an outcome. -/
def turnsLeft (t : Task) : Nat :=
  match t.phase with
  | .resting _ | .turning _ => 1 + t.room
  | .holding _ _ => t.room
  | .ended => 0

theorem turnsLeft_le (t : Task) : t.turnsLeft ≤ 2 := by
  have hRoom := t.room_le
  unfold turnsLeft
  split <;> omega

theorem Step.turnsLeft_le (h : Step source t t') : t'.turnsLeft ≤ t.turnsLeft := by
  cases h <;> simp_all [turnsLeft, room]

/-- The end of a turn uses up room. -/
theorem Step.turnsLeft_lt (h : Step source t t') {turn : Turn}
    (hTurning : t.phase = .turning turn) : t'.turnsLeft < t.turnsLeft := by
  have hMore : t.turnsLeft = 1 + t.room := by simp only [turnsLeft, hTurning]
  rw [hMore]
  cases h with
  | stuck resting | begun resting => cases resting.symm.trans hTurning
  | released holding => cases holding.symm.trans hTurning
  | filled _ _ _ room => simp [turnsLeft, Task.room, room]
  | held => simp only [turnsLeft, room]; omega
  | closed => simp only [turnsLeft]; omega

/-- Settling does not make room for more turns. -/
theorem turnsLeft_settle_le (source : Source) (t : Task) :
    (t.settle source).turnsLeft ≤ t.turnsLeft :=
  settle_induction (P := fun u => u.turnsLeft ≤ t.turnsLeft) (Nat.le_refl _)
    fun _ _ hStep hLeft => Nat.le_trans hStep.turnsLeft_le hLeft

/-- A settled task that wakes is in the middle of a turn. -/
theorem Idle.of_wakesAt (h : Idle t) {w : Nat} (hWakes : t.wakesAt = some w) :
    ∃ turn, t.phase = .turning turn ∧ turn.doneAt = w ∧ t.now < w := by
  cases h with
  | @waiting turn turning early =>
      simp only [wakesAt, turning, Option.some.injEq] at hWakes
      exact ⟨turn, turning, hWakes, hWakes ▸ early⟩
  | blocked holding => simp [wakesAt, holding] at hWakes
  | ended ended => simp [wakesAt, ended] at hWakes

/-- Time can pass until the end of a turn. -/
theorem Idle.wakes (h : Idle t) {w : Nat} (hWakes : t.wakesAt = some w) :
    Advance source t { t with now := w } := by
  obtain ⟨-, -, -, hEarly⟩ := h.of_wakesAt hWakes
  refine .pass h (Nat.le_of_lt hEarly) fun w' hw => ?_
  rw [hWakes, Option.mem_some_iff] at hw
  exact Nat.le_of_eq hw

/-- When its turn ends a task can do something. -/
theorem exists_step_of_wakes (source : Source) {turn : Turn} (hTurning : t.phase = .turning turn)
    (hDue : turn.doneAt ≤ t.now) : ∃ t', Step source t t' := by
  rcases step_or_idle source t with ⟨t', -, hStep⟩ | ⟨-, hIdle⟩
  · exact ⟨t', hStep⟩
  · cases hIdle with
    | waiting turning early =>
        cases turning.symm.trans hTurning
        exact absurd early (Nat.not_lt.mpr hDue)
    | blocked holding => cases holding.symm.trans hTurning
    | ended ended => cases ended.symm.trans hTurning

/-- If there are more rounds than turns that can end, time passes until the given instant. -/
theorem passWithin_reaches {until' n : Nat} (hNow : t.now ≤ until')
    (hLeft : (t.settle source).turnsLeft < n) :
    Reaches source t (t.passWithin source until' n) ∧
      (t.passWithin source until' n).now = until' := by
  induction n generalizing t with
  | zero => exact absurd hLeft (Nat.not_lt_zero _)
  | succ n ih =>
      have hSettled := reaches_settle source t
      have hIdle := idle_settle source t
      have hLater : (t.settle source).now ≤ until' := (now_settle source t).symm ▸ hNow
      simp only [passWithin]
      cases hWakes : (t.settle source).wakesAt with
      | none =>
          exact ⟨hSettled.tail (.pass hIdle hLater (by simp [hWakes])), rfl⟩
      | some w =>
          obtain ⟨turn, hTurning, hDone, hEarly⟩ := hIdle.of_wakesAt hWakes
          simp only [Nat.max_eq_right (Nat.le_of_lt hEarly)]
          split
          · rename_i hInTime
            obtain ⟨u, hStep⟩ := exists_step_of_wakes source
              (t := { t.settle source with now := w }) hTurning (Nat.le_of_eq hDone)
            -- The end of the turn uses up one of the turns that are left.
            have hLess :
                (({ t.settle source with now := w } : Task).settle source).turnsLeft < n := by
              have hUsed := hStep.turnsLeft_lt hTurning
              have hAfter := turnsLeft_settle_le source u
              rw [← hStep.settle_eq] at hAfter
              exact Nat.lt_of_le_of_lt hAfter (Nat.lt_of_lt_of_le hUsed (Nat.le_of_lt_succ hLeft))
            obtain ⟨hReach, hUntil⟩ := ih (t := { t.settle source with now := w }) hInTime hLess
            exact ⟨(hSettled.tail (hIdle.wakes hWakes)).trans hReach, hUntil⟩
          · rename_i hLate
            refine ⟨hSettled.tail (.pass hIdle hLater fun w' hw => ?_), rfl⟩
            rw [hWakes, Option.mem_some_iff] at hw
            exact hw ▸ Nat.le_of_not_le hLate

/-- While its owner sleeps, a task does all that there is to do. -/
theorem sleep_reaches (source : Source) (ms : Nat) (t : Task) :
    Reaches source t (t.sleep source ms) ∧ (t.sleep source ms).now = t.now + ms := by
  have hFew : (t.settle source).turnsLeft < turnsAhead :=
    Nat.lt_of_le_of_lt (t.settle source).turnsLeft_le (by decide)
  exact passWithin_reaches (Nat.le_add_right _ _) hFew

/-- Settling keeps what is in the channel. -/
theorem channel_settle {x : Outcome} (h : t.channel = some x) :
    (t.settle source).channel = some x :=
  settle_induction (P := fun u => u.channel = some x) h
    fun _ _ hStep hFull => hStep.channel_eq hFull

/-- When its turn ends, a task whose channel is empty puts an outcome into it or ends. -/
theorem settle_of_due (source : Source) {turn : Turn} (hTurning : t.phase = .turning turn)
    (hDue : turn.doneAt ≤ t.now) (hRoom : t.channel = none) :
    (∃ x, (t.settle source).channel = some x) ∨ (t.settle source).phase = .ended := by
  obtain ⟨t', hStep⟩ := exists_step_of_wakes source hTurning hDue
  rw [hStep.settle_eq]
  cases hStep with
  | stuck resting => cases hTurning.symm.trans resting
  | begun resting => cases hTurning.symm.trans resting
  | @filled _ o => exact .inl ⟨o, channel_settle rfl⟩
  | held turning due result full => cases hRoom.symm.trans full
  | closed =>
      refine .inr ?_
      rw [Idle.settle_eq (.ended rfl)]
  | released holding => cases hTurning.symm.trans holding

/-- Waiting for an outcome is over at once if there is one when the task has settled. -/
theorem awaitWithin_of_channel {x : Outcome} (h : (t.settle source).channel = some x) (n : Nat) :
    t.awaitWithin source (n + 1) = t.settle source := by
  simp [awaitWithin, h]

/-- The task that is left when the turn under way has ended. -/
theorem awaitWithin_of_wakesAt {w : Nat} (hRoom : (t.settle source).channel = none)
    (hWakes : (t.settle source).wakesAt = some w) (n : Nat) :
    t.awaitWithin source (n + 1) =
      ({ t.settle source with now := w } : Task).awaitWithin source n := by
  obtain ⟨-, -, -, hEarly⟩ := (idle_settle source t).of_wakesAt hWakes
  have hNone : (t.settle source).channel.isSome = false := by rw [hRoom]; rfl
  rw [awaitWithin]
  simp only [hNone, Bool.false_eq_true, if_false, hWakes, Nat.max_eq_right (Nat.le_of_lt hEarly)]

/-- It is over as well if the settled task will never wake. -/
theorem awaitWithin_of_asleep (hWakes : (t.settle source).wakesAt = none) (n : Nat) :
    t.awaitWithin source (n + 1) = t.settle source := by
  simp [awaitWithin, hWakes]

/-- The owner of a task waits until there is an outcome or the task has ended. -/
theorem awaitWithin_reaches (source : Source) (n : Nat) (t : Task) :
    Reaches source t (t.awaitWithin source (n + 2)) ∧
      ((t.awaitWithin source (n + 2)).channel = none →
        (t.awaitWithin source (n + 2)).phase = .ended) := by
  have hSettled := reaches_settle source t
  have hIdle := idle_settle source t
  cases hChannel : (t.settle source).channel with
  | some x =>
      rw [awaitWithin_of_channel hChannel, hChannel]
      exact ⟨hSettled, fun hNone => nomatch hNone⟩
  | none =>
      cases hWakes : (t.settle source).wakesAt with
      | none =>
          rw [awaitWithin_of_asleep hWakes]
          refine ⟨hSettled, fun _ => ?_⟩
          cases hIdle with
          | waiting turning => simp [wakesAt, turning] at hWakes
          | blocked holding full => cases hChannel.symm.trans full
          | ended ended => exact ended
      | some w =>
          obtain ⟨turn, hTurning, hDone, hEarly⟩ := hIdle.of_wakesAt hWakes
          have hReach := (hSettled.tail (hIdle.wakes hWakes)).trans (reaches_settle source _)
          rw [awaitWithin_of_wakesAt hChannel hWakes]
          rcases settle_of_due source (t := { t.settle source with now := w }) hTurning
            (Nat.le_of_eq hDone) hChannel with ⟨x, hFull⟩ | hEnded
          · rw [awaitWithin_of_channel hFull, hFull]
            exact ⟨hReach, fun hNone => nomatch hNone⟩
          · rw [awaitWithin_of_asleep (by rw [wakesAt, hEnded])]
            exact ⟨hReach, fun _ => hEnded⟩

/-- What the owner receives was in the channel of a task that it had waited for; it is nothing only
if the task has ended. -/
theorem receive_reaches (source : Source) (t : Task) :
    ∃ u, Reaches source t u ∧ t.receive source = (u.channel, { u with channel := none }) ∧
      (u.channel = none → u.phase = .ended) := by
  cases hChannel : t.channel with
  | some x => exact ⟨t, .refl, by simp [receive, hChannel], by simp [hChannel]⟩
  | none =>
      obtain ⟨hReach, hEnded⟩ := awaitWithin_reaches source 2 t
      exact ⟨_, hReach, by simp [receive, hChannel, turnsAhead], hEnded⟩

end Task

/-- What the owner of a task does. -/
inductive Deed where
  | receive
  | sleep (ms : Nat)
deriving DecidableEq

/-- A task, with what its owner has received so far and when, oldest first. -/
structure Owner where
  task : Task
  received : List (Option Outcome × Nat) := []

namespace Owner

/-- The owner after a deed of its own; the task is left to itself while the owner waits. -/
def step (source : Source) (o : Owner) : Deed → Owner
  | .receive =>
    let (result, task) := o.task.receive source
    { task, received := o.received ++ [(result, task.now)] }
  | .sleep ms => { o with task := o.task.sleep source ms }

def run (source : Source) (o : Owner) (deeds : List Deed) : Owner := deeds.foldl (step source) o

@[simp]
theorem run_append (source : Source) (o : Owner) (first rest : List Deed) :
    o.run source (first ++ rest) = (o.run source first).run source rest :=
  List.foldl_append

end Owner

end RemoteSigning.Collection
