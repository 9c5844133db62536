import RemoteSigning.Collection.Task
/-!
# Collectors

A collector asks one source in one way. The outcomes of a challenge come one by one when they are
asked for, through a task that works ahead, or all at once, of which only the last is kept.
-/

namespace RemoteSigning

open Collection

/-- A source, and how it is asked. -/
structure Collector where
  source : Source
  interval : Nat := 500
  maxDuration : Option Nat := some 300000

namespace Collector

/-- A collection that has not been called yet. -/
def poll (k : Collector) (challengeId : String) : Collection :=
  { challengeId, interval := k.interval, maxDuration := k.maxDuration }

/-- Starts a task that collects. -/
def spawn (k : Collector) (challengeId : String) (now : Nat) : Task :=
  .spawn now (k.poll challengeId)

/-- Collects for at most a number of turns. -/
def collect (k : Collector) (challengeId : String) (turns now : Nat) : Summary :=
  (k.poll challengeId).collect k.source turns now

end Collector

end RemoteSigning
