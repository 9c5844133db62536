import RemoteSigning.Collection.Basic
import RemoteSigning.Token.Display
import Mathlib.Data.List.Induction

/-!
# The freshness of a display

A display that started at `began` is to publish a link at `began + k * period` for every `k ≥ 1`.
Time passes in jumps, so it may come late and skip some of these instants; but whenever something
can be read, the link that was published last is not older than the last of them (`Fresh`). `Show` is
a display with all who read it, and with the links that it has published so far.

A ticker ticks once for every instant that it has not skipped, also for several at once if it comes
late, whereas `rotate` publishes once. `Rotation.ticks_rotate` says that both end with the same link
and the same next tick. It stands alone: what is proved of `rotate` does not need it, but it is the
reason why that holds of a display which ticks.
-/

namespace RemoteSigning.Token

variable {d : Display} {r : Rotation} {period began due now q t : Nat}

namespace Rotation

/-- The next link is due at the first instant of the grid that is still to come. -/
theorem dueAfter_eq (hPeriod : 0 < period) (hDue : due ≤ now) :
    ∃ n, dueAfter period due now = due + (n + 1) * period ∧ due + n * period ≤ now ∧
      now < due + (n + 1) * period := by
  have hSplit := Nat.div_add_mod (now - due) period
  have hRest := Nat.mod_lt (now - due) hPeriod
  refine ⟨(now - due) / period, ?_⟩
  rw [dueAfter, Nat.succ_mul, Nat.mul_comm ((now - due) / period)]
  omega

theorem dueAfter_of_lt (hDue : due ≤ now) (hNext : now < due + period) :
    dueAfter period due now = due + period := by
  rw [dueAfter, Nat.mod_eq_of_lt (by omega)]
  omega

/-- A tick that was missed does not change when the next one is due. -/
theorem dueAfter_add (hNext : due + period ≤ now) :
    dueAfter period (due + period) now = dueAfter period due now := by
  have hLate : now - due = now - (due + period) + period := by omega
  rw [dueAfter, dueAfter, hLate, Nat.add_mod_right]

/-- The display at a later instant. -/
def movedTo (r : Rotation) (t : Nat) : Rotation := { r with now := t }.rotate

/-- The three things that a display can do when time passes. -/
theorem movedTo_cases (r : Rotation) (t : Nat) :
    r.dueAt = none ∧ r.movedTo t = { r with now := t } ∨
    (∃ due, r.dueAt = some due ∧ t < due ∧ r.movedTo t = { r with now := t }) ∨
    ∃ due, r.dueAt = some due ∧ due ≤ t ∧ r.movedTo t =
      { r with
        now := t, published := r.display.freshLink t, count := r.count + 1
        dueAt := some (dueAfter r.display.period due t) } := by
  cases hDueAt : r.dueAt with
  | none => exact .inl ⟨rfl, by simp [movedTo, rotate, hDueAt]⟩
  | some due =>
      by_cases hDue : due ≤ t
      · exact .inr (.inr ⟨due, rfl, hDue, by simp [movedTo, rotate, hDueAt, hDue]⟩)
      · exact .inr (.inl ⟨due, rfl, Nat.lt_of_not_le hDue, by simp [movedTo, rotate, hDueAt, hDue]⟩)

/-- Waiting for a link either takes no time, or it takes until the next one is due. -/
theorem awaitChange_cases (r : Rotation) (reader : Reader) :
    (r.awaitChange reader).2.1 = r ∨
      ∃ t, r.now ≤ t ∧ (r.awaitChange reader).2.1 = r.movedTo t := by
  unfold awaitChange
  split
  · exact .inl rfl
  · cases hDueAt : r.dueAt with
    | none => exact .inl rfl
    | some due => exact .inr ⟨max r.now due, Nat.le_max_left _ _, by simp [movedTo, hDueAt]⟩

/-- When a ticker ticks next that ticks at `now` for a tick due at `due`. Only a tick that comes too
late makes it skip those that were missed. -/
def nextTick (period due now : Nat) : Nat :=
  if due + Collection.tolerance < now then dueAfter period due now else due + period

/-- A single tick. -/
def tick (r : Rotation) (due : Nat) : Rotation :=
  { r with
    published := r.display.freshLink r.now, count := r.count + 1
    dueAt := some (nextTick r.display.period due r.now) }

/-- Ticking as often as a tick is due. -/
inductive Ticks : Rotation → Rotation → Prop where
  | done {r : Rotation} (early : ∀ due ∈ r.dueAt, r.now < due) : Ticks r r
  | tick {r r' : Rotation} {due : Nat} (dueAt : r.dueAt = some due) (le_now : due ≤ r.now)
      (rest : Ticks (r.tick due) r') : Ticks r r'

theorem ticks_of_due (hPeriod : 0 < r.display.period) (hDueAt : r.dueAt = some due)
    (hDue : due ≤ r.now) :
    ∃ count, r.count < count ∧ Ticks r
      { r with
        published := r.display.freshLink r.now, count
        dueAt := some (dueAfter r.display.period due r.now) } := by
  -- Every tick comes closer to the present.
  induction hLate : r.now - due using Nat.strongRecOn generalizing r due with
  | ind late ih =>
      by_cases hNext : nextTick r.display.period due r.now ≤ r.now
      · have hNextTick : nextTick r.display.period due r.now = due + r.display.period := by
          unfold nextTick at hNext ⊢
          split at hNext
          · obtain ⟨n, hAfter, -, hLater⟩ := dueAfter_eq hPeriod hDue
            omega
          · rename_i hInTime
            exact if_neg hInTime
        rw [hNextTick] at hNext
        have hPeriodAfterTick : 0 < (r.tick due).display.period := hPeriod
        have hDueAfterTick : (r.tick due).dueAt = some (due + r.display.period) :=
          congrArg some hNextTick
        obtain ⟨count, hCount, hTicks⟩ :=
          ih (r.now - (due + r.display.period)) (by omega) hPeriodAfterTick hDueAfterTick hNext rfl
        refine ⟨count, Nat.lt_of_succ_lt hCount, .tick hDueAt hDue ?_⟩
        rw [← dueAfter_add hNext]
        exact hTicks
      · have hNextTick : nextTick r.display.period due r.now =
            dueAfter r.display.period due r.now := by
          unfold nextTick at hNext ⊢
          split at hNext
          · rename_i hLate
            exact if_pos hLate
          · rename_i hInTime
            rw [if_neg hInTime, dueAfter_of_lt hDue (Nat.lt_of_not_le hNext)]
        refine ⟨r.count + 1, Nat.lt_succ_self _, .tick hDueAt hDue ?_⟩
        rw [← hNextTick]
        apply Ticks.done
        intro due' hDue'
        obtain rfl := Option.some.inj hDue'
        exact Nat.lt_of_not_le hNext

/-- A display that ticks as often as a tick is due ends up with the link, and with the next tick, that
`rotate` gives it. Only how many links it has published on the way may differ. -/
theorem ticks_rotate (hPeriod : 0 < r.display.period) :
    ∃ count, (r.count < count ↔ r.count < r.rotate.count) ∧ Ticks r { r.rotate with count } := by
  have hRotate : r.rotate = r.movedTo r.now := rfl
  rcases r.movedTo_cases r.now with ⟨hDueAt, hMoved⟩ | ⟨due, hDueAt, hEarly, hMoved⟩ |
    ⟨due, hDueAt, hDue, hMoved⟩
  · rw [hRotate, hMoved]
    refine ⟨r.count, Iff.rfl, .done ?_⟩
    simp [hDueAt]
  · rw [hRotate, hMoved]
    refine ⟨r.count, Iff.rfl, .done ?_⟩
    simpa [hDueAt] using hEarly
  · rw [hRotate, hMoved]
    obtain ⟨count, hCount, hTicks⟩ := ticks_of_due hPeriod hDueAt hDue
    exact ⟨count, by simp [hCount], hTicks⟩

/-- The link of a display that started at `began` was published at `q`, and the next one is due at the
first instant of the grid after that, which is still to come. -/
structure Fresh (began q : Nat) (r : Rotation) : Prop where
  began_le : began ≤ q
  le_now : q ≤ r.now
  published : r.published = r.display.freshLink q
  due : ∀ due ∈ r.dueAt, ∃ k, due = began + (k + 1) * r.display.period ∧
    began + k * r.display.period ≤ q ∧ r.now < due

/-- A display that has just started is fresh. -/
theorem fresh_start (hPeriod : 0 < d.period) (began : Nat) : Fresh began began (start d began) := by
  refine ⟨Nat.le_refl _, Nat.le_refl _, rfl, ?_⟩
  intro due hDue
  simp only [start, Nat.ne_of_gt hPeriod, if_false, Option.mem_some_iff] at hDue
  refine ⟨0, ?_⟩
  show due = began + (0 + 1) * d.period ∧ began + 0 * d.period ≤ began ∧ began < due
  omega

/-- Nothing is published, or it is fresh from now on. -/
theorem Fresh.movedTo (h : Fresh began q r) (hPeriod : 0 < r.display.period) (hLater : r.now ≤ t) :
    (r.movedTo t).count = r.count ∧ (r.movedTo t).published = r.published ∧
        Fresh began q (r.movedTo t) ∨
      r.count < (r.movedTo t).count ∧ Fresh began t (r.movedTo t) := by
  obtain ⟨hBegan, hNow, hPublished, hNext⟩ := h
  rcases r.movedTo_cases t with ⟨hDueAt, hMoved⟩ | ⟨due, hDueAt, hEarly, hMoved⟩ |
    ⟨due, hDueAt, hDue, hMoved⟩
  · rw [hMoved]
    exact .inl ⟨rfl, rfl, hBegan, Nat.le_trans hNow hLater, hPublished, by simp [hDueAt]⟩
  · rw [hMoved]
    refine .inl ⟨rfl, rfl, hBegan, Nat.le_trans hNow hLater, hPublished, ?_⟩
    intro due' hDue'
    obtain ⟨k, hGrid, hLast, -⟩ := hNext due' hDue'
    obtain rfl : due = due' := Option.some.inj (hDueAt.symm.trans hDue')
    exact ⟨k, hGrid, hLast, hEarly⟩
  · rw [hMoved]
    refine .inr ⟨Nat.lt_succ_self _, by omega, Nat.le_refl _, rfl, ?_⟩
    intro due' hDue'
    obtain ⟨k, rfl, -, -⟩ := hNext due hDueAt
    obtain ⟨n, hAfter, hLast, hLater'⟩ := dueAfter_eq hPeriod hDue
    obtain rfl := Option.some.inj hDue'
    have hSum (m : Nat) : began + (k + 1) * r.display.period + m * r.display.period =
        began + (k + 1 + m) * r.display.period := by
      rw [Nat.add_mul (k + 1) m, Nat.add_assoc]
    refine ⟨k + 1 + n, ?_, ?_, ?_⟩
    · rw [hAfter, hSum]
      rfl
    · rwa [hSum] at hLast
    · rw [hAfter]
      exact hLater'

/-- No instant of the grid has been missed since. -/
theorem Fresh.not_missed (h : Fresh began q r) (hRunning : r.dueAt.isSome) (k : Nat)
    (hAfter : q < began + k * r.display.period) : r.now < began + k * r.display.period := by
  obtain ⟨due, hDueAt⟩ := Option.isSome_iff_exists.mp hRunning
  obtain ⟨n, rfl, hLast, hNow⟩ := h.due due hDueAt
  have hLater : n * r.display.period < k * r.display.period := by omega
  have hSucc : (n + 1) * r.display.period ≤ k * r.display.period :=
    Nat.mul_le_mul_right _ (Nat.lt_of_mul_lt_mul_right hLater)
  omega

/-- With a link a second and none before the start, the one that was published last is that of the
present second. -/
theorem Fresh.published_eq (h : Fresh began q r) (hRunning : r.dueAt.isSome)
    (hPeriod : r.display.period = 1000) (hIssued : r.display.issuedAt = began) :
    r.published = r.display.freshLink r.now := by
  obtain ⟨due, hDueAt⟩ := Option.isSome_iff_exists.mp hRunning
  obtain ⟨k, hDue, hLast, hNow⟩ := h.due due hDueAt
  have hBefore := h.le_now
  rw [hPeriod] at hDue hLast
  have hSeconds : r.display.elapsedSeconds q = r.display.elapsedSeconds r.now := by
    unfold Display.elapsedSeconds
    omega
  rw [h.published, Display.freshLink, Display.freshLink, hSeconds]

theorem Fresh.stop (h : Fresh began q r) : Fresh began q r.stop :=
  ⟨h.began_le, h.le_now, h.published, fun _ hDue => nomatch hDue⟩

@[simp]
theorem display_movedTo (r : Rotation) (t : Nat) : (r.movedTo t).display = r.display := by
  rcases r.movedTo_cases t with ⟨-, hMoved⟩ | ⟨due, -, -, hMoved⟩ | ⟨due, -, -, hMoved⟩ <;>
    rw [hMoved]

@[simp]
theorem now_movedTo (r : Rotation) (t : Nat) : (r.movedTo t).now = t := by
  rcases r.movedTo_cases t with ⟨-, hMoved⟩ | ⟨due, -, -, hMoved⟩ | ⟨due, -, -, hMoved⟩ <;>
    rw [hMoved]

/-- Only stopping it stops a display. -/
@[simp]
theorem isSome_dueAt_movedTo (r : Rotation) (t : Nat) :
    (r.movedTo t).dueAt.isSome = r.dueAt.isSome := by
  rcases r.movedTo_cases t with ⟨-, hMoved⟩ | ⟨due, -, -, hMoved⟩ | ⟨due, hDueAt, -, hMoved⟩
  · rw [hMoved]
  · rw [hMoved]
  · rw [hMoved, hDueAt]
    rfl

/-- A reader of a display that has stopped gets the last link if it has not seen it, and then nothing.
-/
theorem awaitChange_of_stopped (h : r.dueAt = none) (reader : Reader) :
    r.awaitChange reader =
      if reader < r.count then (some r.published, r, r.count) else (none, r, reader) := by
  simp [awaitChange, h]

end Rotation

/-- What is done around a display. -/
inductive Act where
  /-- Time passes in one jump. -/
  | advance (ms : Nat)
  /-- The link that was published last is read. -/
  | current
  /-- A reader waits for a link that it has not seen. -/
  | changed (reader : Nat)
  /-- A reader joins that has seen what the first one has seen. -/
  | subscribe
  | stop
deriving DecidableEq

/-- A display, those who read it, and all that it has published with the instants, oldest first. -/
structure Show where
  rotation : Rotation
  readers : List Reader := [.fresh]
  publications : List (Nat × Url)

namespace Show

/-- A display with one reader, and with its first link published. -/
def start (d : Display) (began : Nat) : Show :=
  let rotation := Rotation.start d began
  { rotation, publications := [(began, rotation.published)] }

/-- The show after the display has gone on. -/
def goneOn (s : Show) (r : Rotation) : Show :=
  { s with
    rotation := r
    publications :=
      if s.rotation.count < r.count then s.publications ++ [(r.now, r.published)]
      else s.publications }

/-- The show after an act. -/
def step (s : Show) : Act → Show
  | .advance ms => s.goneOn (s.rotation.advance ms)
  | .current => s
  | .changed i =>
    match s.readers[i]? with
    | some reader =>
      let (_, rotation, reader) := s.rotation.awaitChange reader
      { s.goneOn rotation with readers := s.readers.set i reader }
    | none => s
  | .subscribe => { s with readers := s.readers ++ s.readers.head?.toList }
  | .stop => { s with rotation := s.rotation.stop }

def run (s : Show) (acts : List Act) : Show := acts.foldl step s

@[simp]
theorem run_append (s : Show) (first rest : List Act) :
    s.run (first ++ rest) = (s.run first).run rest :=
  List.foldl_append

variable {s s' : Show} {a : Act}

/-- All that an act can do to the display. -/
inductive Step (s : Show) (a : Act) (s' : Show) : Prop where
  | same (other : a ≠ .stop) (rotation : s'.rotation = s.rotation)
      (publications : s'.publications = s.publications)
  | moved {t : Nat} (other : a ≠ .stop) (later : s.rotation.now ≤ t)
      (rotation : s'.rotation = s.rotation.movedTo t)
      (publications : s'.publications = (s.goneOn (s.rotation.movedTo t)).publications)
  | stopped (stop : a = .stop) (rotation : s'.rotation = s.rotation.stop)
      (publications : s'.publications = s.publications)

/-- `Step` is all that an act can do. -/
theorem step_step (s : Show) (a : Act) : Step s a (s.step a) := by
  cases a with
  | advance ms => exact .moved (by simp) (Nat.le_add_right _ ms) rfl rfl
  | current => exact .same (by simp) rfl rfl
  | changed i =>
      cases hReader : s.readers[i]? with
      | none => exact .same (by simp) (by simp [step, hReader]) (by simp [step, hReader])
      | some reader =>
          rcases s.rotation.awaitChange_cases reader with hSame | ⟨t, hLater, hMoved⟩
          · refine .same (by simp) ?_ ?_
            · simp [step, hReader, hSame, goneOn]
            · simp [step, hReader, hSame, goneOn]
          · refine .moved (by simp) hLater ?_ ?_
            · simp [step, hReader, hMoved, goneOn]
            · simp [step, hReader, hMoved, goneOn]
  | subscribe => exact .same (by simp) rfl rfl
  | stop => exact .stopped rfl rfl rfl

/-- What a show of a display that started at `began` keeps. -/
structure OnTime (d : Display) (began : Nat) (s : Show) : Prop where
  display : s.rotation.display = d
  last : ∃ q, s.publications.getLast? = some (q, s.rotation.published) ∧
    s.rotation.Fresh began q
  each : ∀ p ∈ s.publications, began ≤ p.1 ∧ p.1 ≤ s.rotation.now ∧ p.2 = d.freshLink p.1
  ordered : s.publications.Pairwise fun p p' => p.1 ≤ p'.1

theorem onTime_start (hPeriod : 0 < d.period) (began : Nat) : OnTime d began (start d began) := by
  constructor
  · rfl
  · exact ⟨began, rfl, Rotation.fresh_start hPeriod began⟩
  · intro p hp
    obtain rfl := List.mem_singleton.mp hp
    exact ⟨Nat.le_refl _, Nat.le_refl _, rfl⟩
  · exact List.pairwise_singleton ..

theorem OnTime.step (h : OnTime d began s) (hPeriod : 0 < d.period) (hStep : Step s a s') :
    OnTime d began s' := by
  obtain ⟨hDisplay, ⟨q, hLast, hFresh⟩, hEach, hOrdered⟩ := h
  cases hStep with
  | same other rotation publications =>
      constructor
      · rw [rotation, hDisplay]
      · rw [rotation, publications]
        exact ⟨q, hLast, hFresh⟩
      · rwa [rotation, publications]
      · rwa [publications]
  | @moved t other later rotation publications =>
      rw [← hDisplay] at hPeriod
      have hEarlier : ∀ p ∈ s.publications, began ≤ p.1 ∧ p.1 ≤ t ∧ p.2 = d.freshLink p.1 := by
        intro p hp
        obtain ⟨hBegan, hNow, hLink⟩ := hEach p hp
        exact ⟨hBegan, Nat.le_trans hNow later, hLink⟩
      have hDisplay' : s'.rotation.display = d := by
        rw [rotation, Rotation.display_movedTo, hDisplay]
      have hNow : s'.rotation.now = t := by
        rw [rotation, Rotation.now_movedTo]
      rcases hFresh.movedTo hPeriod later with ⟨hCount, hPublished, hSame⟩ | ⟨hCount, hNew⟩
      · have hKept : s'.publications = s.publications := by
          rw [publications, goneOn, hCount, if_neg (Nat.lt_irrefl _)]
        constructor
        · exact hDisplay'
        · refine ⟨q, ?_, rotation ▸ hSame⟩
          rw [hKept, rotation, hPublished]
          exact hLast
        · rwa [hKept, hNow]
        · rwa [hKept]
      · have hLink : s'.rotation.published = d.freshLink t := by
          rw [rotation, hNew.published, Rotation.display_movedTo, hDisplay]
        have hMore : s'.publications = s.publications ++ [(t, s'.rotation.published)] := by
          rw [publications, goneOn, if_pos hCount, Rotation.now_movedTo, rotation]
        constructor
        · exact hDisplay'
        · exact ⟨t, by rw [hMore, List.getLast?_concat], rotation ▸ hNew⟩
        · rw [hMore, hNow]
          intro p hp
          rcases List.mem_append.mp hp with hp | hp
          · exact hEarlier p hp
          · obtain rfl := List.mem_singleton.mp hp
            exact ⟨hNew.began_le, Nat.le_refl _, hLink⟩
        · rw [hMore]
          apply List.pairwise_append.mpr
          refine ⟨hOrdered, List.pairwise_singleton .., fun p hp p' hp' => ?_⟩
          obtain rfl := List.mem_singleton.mp hp'
          exact (hEarlier p hp).2.1
  | stopped stop rotation publications =>
      constructor
      · rw [rotation]
        exact hDisplay
      · rw [rotation, publications]
        exact ⟨q, hLast, hFresh.stop⟩
      · rwa [rotation, publications]
      · rwa [publications]

/-- By induction on the acts: the display stays on time. -/
theorem onTime_run (hPeriod : 0 < d.period) (began : Nat) (acts : List Act) :
    OnTime d began ((start d began).run acts) := by
  induction acts using List.reverseRecOn with
  | nil => exact onTime_start hPeriod began
  | append_singleton acts a ih =>
      rw [run_append]
      exact ih.step hPeriod (step_step _ a)

/-- A display runs until it is stopped. -/
theorem isSome_dueAt_run (s : Show) (acts : List Act) :
    (s.run acts).rotation.dueAt.isSome ↔ s.rotation.dueAt.isSome ∧ Act.stop ∉ acts := by
  induction acts generalizing s with
  | nil => simp [run]
  | cons a rest ih =>
      show ((s.step a).run rest).rotation.dueAt.isSome ↔ _
      rw [ih, List.mem_cons]
      cases step_step s a with
      | same other rotation => simp [rotation, other.symm]
      | moved other later rotation => simp [rotation, other.symm]
      | stopped stop rotation =>
          rw [rotation]
          simp [stop, Rotation.stop]

/-- Nothing more is published by a display that has stopped. -/
theorem run_of_stopped (h : s.rotation.dueAt = none) (acts : List Act) :
    (s.run acts).rotation.dueAt = none ∧
      (s.run acts).rotation.published = s.rotation.published ∧
      (s.run acts).rotation.count = s.rotation.count ∧
      (s.run acts).publications = s.publications := by
  induction acts generalizing s with
  | nil => exact ⟨h, rfl, rfl, rfl⟩
  | cons a rest ih =>
      show ((s.step a).run rest).rotation.dueAt = none ∧ _
      have hStep : (s.step a).rotation.dueAt = none ∧
          (s.step a).rotation.published = s.rotation.published ∧
          (s.step a).rotation.count = s.rotation.count ∧
          (s.step a).publications = s.publications := by
        cases step_step s a with
        | same other rotation publications =>
            rw [rotation, publications]
            exact ⟨h, rfl, rfl, rfl⟩
        | @moved t other later rotation publications =>
            rcases s.rotation.movedTo_cases t with ⟨-, hMoved⟩ | ⟨due, hDueAt, -⟩ | ⟨due, hDueAt, -⟩
            · rw [rotation, publications, goneOn, hMoved, if_neg (Nat.lt_irrefl _)]
              exact ⟨h, rfl, rfl, rfl⟩
            · cases h.symm.trans hDueAt
            · cases h.symm.trans hDueAt
        | stopped stop rotation publications =>
            rw [rotation, publications]
            exact ⟨rfl, rfl, rfl, rfl⟩
      obtain ⟨hStopped, hPublished, hCount, hPublications⟩ := hStep
      obtain ⟨hStill, hPublished', hCount', hPublications'⟩ := ih hStopped
      exact ⟨hStill, hPublished'.trans hPublished, hCount'.trans hCount,
        hPublications'.trans hPublications⟩

/-- A display is always fresh. While it runs, the link that was published last is that of the second in
which it was published, and since then no instant has passed at which a link was due; publications
never go back in time. So with a link a second, counted from the start, it is the link of the present
second. After a stop nothing more is published, and every reader comes to the end: it gets the last
link if it has not seen it, and then nothing. -/
theorem always_fresh (d : Display) (hPeriod : 0 < d.period) (began : Nat) (acts : List Act) :
    let s := (start d began).run acts
    let r := s.rotation
    (∃ q, s.publications.getLast? = some (q, r.published) ∧ began ≤ q ∧ q ≤ r.now ∧
      r.published =
        link d.baseUrl (issue d.secret ⟨d.challengeId, (q - d.issuedAt) / 1000⟩) ∧
      (.stop ∉ acts → ∀ k ≥ 1, ¬(q < began + k * d.period ∧ began + k * d.period ≤ r.now))) ∧
    (∀ p ∈ s.publications, began ≤ p.1 ∧ p.1 ≤ r.now ∧ p.2 = d.freshLink p.1) ∧
    (s.publications.Pairwise fun p p' => p.1 ≤ p'.1) ∧
    (.stop ∉ acts → d.period = 1000 → d.issuedAt = began → r.published = d.freshLink r.now) ∧
    (.stop ∈ acts → ∀ more, let s' := s.run more
      s'.publications = s.publications ∧ s'.rotation.published = r.published ∧
      ∀ reader, let first := s'.rotation.awaitChange reader
        first.1 = (if reader < r.count then some r.published else none) ∧
          (first.2.1.awaitChange first.2.2).1 = none) := by
  intro s r
  have hOnTime : OnTime d began s := onTime_run hPeriod began acts
  obtain ⟨q, hLast, hFresh⟩ := hOnTime.last
  have hRunning : r.dueAt.isSome ↔ Act.stop ∉ acts := by
    have hStart : (start d began).rotation.dueAt.isSome := by
      simp [start, Rotation.start, Nat.ne_of_gt hPeriod]
    rw [isSome_dueAt_run, and_iff_right hStart]
  refine ⟨⟨q, hLast, hFresh.began_le, hFresh.le_now, ?_, ?_⟩, hOnTime.each, hOnTime.ordered, ?_, ?_⟩
  · rw [hFresh.published, hOnTime.display]
    rfl
  · rintro hStop k - ⟨hAfter, hBefore⟩
    rw [← hOnTime.display] at hAfter hBefore
    exact Nat.not_lt.mpr hBefore (hFresh.not_missed (hRunning.mpr hStop) k hAfter)
  · intro hStop hSecond hIssued
    rw [← hOnTime.display] at hSecond hIssued ⊢
    exact hFresh.published_eq (hRunning.mpr hStop) hSecond hIssued
  · intro hStop more s'
    have hStopped : r.dueAt = none := by
      rw [← Option.not_isSome_iff_eq_none, hRunning]
      exact not_not_intro hStop
    obtain ⟨hStill, hPublished, hCount, hPublications⟩ := run_of_stopped hStopped more
    refine ⟨hPublications, hPublished, fun reader => ?_⟩
    intro first
    have hFirst : first = if reader < r.count then (some r.published, s'.rotation, r.count)
        else (none, s'.rotation, reader) := by
      rw [← hCount, ← hPublished]
      exact Rotation.awaitChange_of_stopped hStill reader
    rw [hFirst]
    split
    · apply And.intro rfl
      rw [Rotation.awaitChange_of_stopped hStill, hCount, if_neg (Nat.lt_irrefl _)]
    · rename_i hSeen
      apply And.intro rfl
      rw [Rotation.awaitChange_of_stopped hStill, hCount, if_neg hSeen]

/-- A display with less time between links than a tick may be late. -/
def hasty : Display where
  challengeId := "room-1"
  secret := ⟨"secret"⟩
  baseUrl := { scheme := "https", host := some (.domain "rp.example.com"), path := .segments [""] }
  issuedAt := 5
  period := 2

/-- After 5 ms two links are due, which are one and the same, and a reader that waits for another one
gets it at the next even instant. -/
theorem hasty_fresh :
    let s := (start hasty 1000).run [.advance 5, .changed 0, .current, .changed 0, .stop, .advance 9]
    0 < hasty.period ∧ s.publications.map Prod.fst = [1000, 1005, 1006] ∧
      s.rotation.now = 1015 ∧
      s.rotation.published = link hasty.baseUrl (issue hasty.secret ⟨"room-1", 1⟩) ∧
      (s.rotation.awaitChange .fresh).1 = some s.rotation.published := by
  intro s
  have hPeriod : 0 < hasty.period := by decide
  obtain ⟨⟨q, hLast, -, -, hLink, -⟩, -, -, -, hStopped⟩ := always_fresh hasty hPeriod 1000
    [.advance 5, .changed 0, .current, .changed 0, .stop, .advance 9]
  obtain ⟨-, -, hReaders⟩ := hStopped (by decide) []
  obtain rfl : 1006 = q := Option.some.inj (congrArg (Option.map Prod.fst) hLast)
  exact ⟨hPeriod, rfl, rfl, hLink, (hReaders .fresh).1⟩

end Show

end RemoteSigning.Token
