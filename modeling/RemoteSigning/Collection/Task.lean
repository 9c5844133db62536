import RemoteSigning.Collection.Basic
/-!
# Collecting on the side

A task runs a collection while its owner does other things. Outcomes reach the owner through a
channel that holds one of them; with another one in its hands the task waits until there is room.
The task gets on only while the owner waits.
-/

namespace RemoteSigning.Collection

/-- What a task is doing. -/
inductive Phase where
  /-- It has not begun the next turn. -/
  | resting (c : Collection)
  | turning (t : Turn)
  /-- It has an outcome in its hands for which there is no room. -/
  | holding (o : Outcome) (c : Collection)
  /-- Nothing more will come. -/
  | ended
deriving DecidableEq

/-- A task, seen by its owner at an instant. -/
structure Task where
  now : Nat
  phase : Phase
  channel : Option Outcome := none
  /-- The requests of the turns that are over, oldest first. -/
  sent : List Request := []
deriving DecidableEq

namespace Task

def spawn (now : Nat) (c : Collection) : Task := { now, phase := .resting c }

/-- The requests that have been sent, oldest first. -/
def requests (t : Task) : List Request :=
  match t.phase with
  | .turning turn => t.sent ++ (turn.request.filter (·.sentAt ≤ t.now)).toList
  | _ => t.sent

/-- Puts an outcome into the channel if there is room. -/
def deliver (t : Task) (o : Outcome) (c : Collection) : Task :=
  match t.channel with
  | none => { t with channel := some o, phase := .resting c }
  | some _ => { t with phase := .holding o c }

/-- The next thing that the task can do without letting time pass; `none` if it has to wait. -/
def step (source : Source) (t : Task) : Option Task :=
  match t.phase with
  | .resting c =>
    if c.isStuck then some { t with phase := .ended }
    else some { t with phase := .turning (c.next source t.sent.length t.now) }
  | .turning turn =>
    if t.now < turn.doneAt then none
    else
      let t := { t with sent := t.sent ++ turn.request.toList }
      match turn.result with
      | some o => some (t.deliver o turn.collection)
      | none => some { t with phase := .ended }
  | .holding o c => if t.channel.isNone then some (t.deliver o c) else none
  | .ended => none

/-- The most steps that a task makes at an instant: it fills the channel, takes one more outcome and
ends. -/
def stepLimit : Nat := 8

/-- Lets the task run on for at most a number of steps, without letting time pass. -/
def settleWithin (source : Source) : Nat → Task → Task
  | 0, t => t
  | n + 1, t =>
    match t.step source with
    | some t => settleWithin source n t
    | none => t

/-- Lets the task run on without letting time pass. -/
def settle (source : Source) (t : Task) : Task := t.settleWithin source stepLimit

/-- When the turn that is under way ends. -/
def wakesAt (t : Task) : Option Nat :=
  match t.phase with
  | .turning turn => some turn.doneAt
  | _ => none

/-- Lets time pass until an instant, for at most a number of turns. -/
def passWithin (source : Source) (until' : Nat) : Nat → Task → Task
  | 0, t => { t with now := until' }
  | n + 1, t =>
    let t := t.settle source
    match t.wakesAt with
    | some w =>
      if w ≤ until' then passWithin source until' n { t with now := max t.now w }
      else { t with now := until' }
    | none => { t with now := until' }

/-- The most turns that end while the owner takes nothing: one fills the channel, one more is held.
-/
def turnsAhead : Nat := 4

def sleep (source : Source) (ms : Nat) (t : Task) : Task :=
  t.passWithin source (t.now + ms) turnsAhead

/-- Waits for an outcome, for at most a number of turns. -/
def awaitWithin (source : Source) : Nat → Task → Task
  | 0, t => t
  | n + 1, t =>
    let t := t.settle source
    if t.channel.isSome then t
    else
      match t.wakesAt with
      | some w => awaitWithin source n { t with now := max t.now w }
      | none => t

/-- Takes an outcome from the task, or `none` when nothing more will come. One that is in the
channel is taken at once. -/
def receive (source : Source) (t : Task) : Option Outcome × Task :=
  let t := if t.channel.isSome then t else t.awaitWithin source turnsAhead
  (t.channel, { t with channel := none })

def cancel (t : Task) : Task := { t with sent := t.requests, phase := .ended }

end Task

end RemoteSigning.Collection
