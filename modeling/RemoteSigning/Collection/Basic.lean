import RemoteSigning.Failure
import RemoteSigning.Outcome
/-!
# Collecting the outcome of a challenge

A collection asks a source again and again, once a tick, until the outcome is terminal, it is
cancelled or its time is up. Nothing is asked before the first call of `next`, and at most one
request is under way at a time.

Time is virtual and counted in milliseconds. A source is what it answers to the requests that it
gets for a challenge, in their order, and how long each answer takes.
-/

namespace RemoteSigning

/-- The answer to a request, and how long it takes. -/
structure Answer where
  result : Except TransportFailure Outcome
  delay : Nat := 0

/-- The answers of a source to the requests for a challenge; the first one has the number `0`. -/
abbrev Source := String → Nat → Answer

/-- The source that gives answers one after the other and then says that nothing has happened. -/
def Source.ofScript (script : List Answer) : Source := fun _ n =>
  script.getD n { result := .ok .pending }

/-- A running collection of the outcome of one challenge. -/
structure Collection where
  challengeId : String
  /-- The time from one tick to the next. -/
  interval : Nat
  /-- How long it runs; without limit if there is none. -/
  maxDuration : Option Nat
  /-- The next tick and the deadline, from the first call on. -/
  schedule : Option (Nat × Option Nat) := none
  finished : Bool := false
deriving DecidableEq

namespace Collection

/-- A tick that is awaited by more than this is late. -/
def tolerance : Nat := 5

/-- The instant of a tick that is due at `due` and awaited from `now` on. -/
def tickAt (due now : Nat) : Nat := max due now

/-- When the tick after it is due. After a late one the ticks start over. -/
def tickAfter (interval due now : Nat) : Nat :=
  if due + tolerance < tickAt due now then tickAt due now + interval else due + interval

/-- A request for the outcome of a challenge. -/
structure Request where
  challengeId : String
  sentAt : Nat
deriving DecidableEq

/-- What a call of `next` does. -/
structure Turn where
  /-- The outcome, unless the collection is finished. -/
  result : Option Outcome
  /-- The request that was sent, if one was. -/
  request : Option Request
  doneAt : Nat
  collection : Collection
deriving DecidableEq

/-- The outcome that an answer stands for. -/
def outcomeOf : Except TransportFailure Outcome → Outcome
  | .ok o => o
  | .error e => .error Outcome.transportCode e.message

/-- The turn in which the time is up. -/
def outOfTime (c : Collection) (request : Option Request) (doneAt : Nat) : Turn :=
  { result := some .timedOut, request, doneAt, collection := { c with finished := true } }

/-- Sends a request at the instant of a tick. An answer that would come after the deadline is not
waited for. -/
def ask (c : Collection) (deadline : Option Nat) (answer : Answer) (tick : Nat) : Turn :=
  let request : Request := { challengeId := c.challengeId, sentAt := tick }
  let doneAt := tick + answer.delay
  let outcome := outcomeOf answer.result
  let turn : Turn :=
    { result := some outcome, request := some request, doneAt
      collection := { c with finished := outcome.isTerminal } }
  match deadline with
  | some d => if d < doneAt then c.outOfTime (some request) d else turn
  | none => turn

/-- The next tick and the deadline of a collection that is called at `now`. -/
def scheduleAt (c : Collection) (now : Nat) : Nat × Option Nat :=
  c.schedule.getD (now + c.interval, c.maxDuration.map (now + ·))

/-- Waits for the next tick, sends a request and gives the outcome. The source has been asked
`asked` times before. -/
def next (source : Source) (asked now : Nat) (c : Collection) : Turn :=
  if c.finished then { result := none, request := none, doneAt := now, collection := c }
  else
    let (due, deadline) := c.scheduleAt now
    let tick := tickAt due now
    let c := { c with schedule := some (tickAfter c.interval due now, deadline) }
    if deadline.any (· ≤ tick) then c.outOfTime none tick
    else c.ask deadline (source c.challengeId asked) tick

/-- Whether a call of `next` fails for good: there are no ticks without time between them. -/
def isStuck (c : Collection) : Bool := !c.finished && c.interval == 0

def cancel (c : Collection) : Collection := { c with finished := true, schedule := none }

/-- The number of requests after a turn. -/
def Turn.asked (asked : Nat) (t : Turn) : Nat := if t.request.isSome then asked + 1 else asked

/-- The turns of a collection that is called as soon as it has returned, up to a number of turns. -/
def run (source : Source) : Nat → Nat → Nat → Collection → List Turn
  | 0, _, _, _ => []
  | turns + 1, asked, now, c =>
    let t := c.next source asked now
    if t.result.isNone then []
    else t :: run source turns (t.asked asked) t.doneAt t.collection

/-- A number of turns after which the time of a collection is up. -/
def turnLimit (c : Collection) : Option Nat := c.maxDuration.map (· / c.interval + 2)

/-- What a collection that runs to its end comes to. -/
structure Summary where
  /-- The last outcome. -/
  outcome : Outcome
  /-- The requests that were sent, oldest first. -/
  requests : List Request
  doneAt : Nat
deriving DecidableEq

/-- The summary after one more turn. -/
def Summary.add (s : Summary) (t : Turn) : Summary :=
  { outcome := t.result.getD s.outcome
    requests := s.requests ++ t.request.toList
    doneAt := t.doneAt }

/-- Runs a collection for at most a number of turns. -/
def collect (source : Source) (turns now : Nat) (c : Collection) : Summary :=
  (c.run source turns 0 now).foldl Summary.add { outcome := .pending, requests := [], doneAt := now }

end Collection

end RemoteSigning
