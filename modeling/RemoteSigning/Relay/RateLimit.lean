import RemoteSigning.Relay.Config
import RemoteSigning.Relay.Http
/-!
# Limits on requests

How many requests a host may send: a burst at once, and one more in each interval. For every host
the limiter keeps the instant at which its whole burst would be used up; each request moves it by
one interval. Time is counted in milliseconds.
-/

namespace RemoteSigning.Relay

/-- A limiter. -/
structure Limiter where
  /-- The time in which one more request becomes possible. -/
  interval : Nat
  burst : Nat
  /-- For each host that has sent a request, when its requests would be used up. -/
  horizons : List (Address × Nat) := []
deriving DecidableEq, Repr

namespace Limiter

/-- The limiter that settings ask for. Limits of zero are none. -/
def ofConfig? (c : Config) : Option Limiter :=
  if c.rateLimitEnabled ∧ c.rateLimitPerSecond ≠ 0 ∧ c.rateLimitBurst ≠ 0 then
    some { interval := c.rateLimitPerSecond * 1000, burst := c.rateLimitBurst }
  else none

/-- Whether the time that a whole burst takes can be counted, which is done in nanoseconds. -/
def isCountable (l : Limiter) : Bool := l.interval * 1000000 * l.burst < 2 ^ 64

def horizon (l : Limiter) (client : Address) (now : Nat) : Nat :=
  (l.horizons.lookup client).getD (now + l.interval)

/-- The first instant at which the host may send a request. -/
def earliest (l : Limiter) (client : Address) (now : Nat) : Nat :=
  l.horizon client now - l.interval * l.burst

def setHorizon (client : Address) (t : Nat) : List (Address × Nat) → List (Address × Nat)
  | [] => [(client, t)]
  | (a, u) :: rest => if a = client then (a, t) :: rest else (a, u) :: setHorizon client t rest

/-- Whether a host may send a request now: the response that refuses it, or the limiter afterwards.
-/
def accept (l : Limiter) (client : Option Address) (now : Nat) : Except Response Limiter :=
  match client with
  | none => .error { status := 500, body := "Unable To Extract Key!" }
  | some a =>
    let first := l.earliest a now
    if now < first then
      .error { status := 429
               body := "Too Many Requests! Wait for " ++ toString ((first - now) / 1000) ++ "s" }
    else
      .ok { l with horizons := setHorizon a (max (l.horizon a now) now + l.interval) l.horizons }

end Limiter

end RemoteSigning.Relay
