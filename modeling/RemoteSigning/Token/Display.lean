import RemoteSigning.Token.Basic
import RemoteSigning.Token.Link
/-!
# The display of a token

A device shows the link of a challenge and puts a fresh token into it once a period. Readers of the
display see the link that was published last and can wait for the next one. Time is counted in
milliseconds.
-/

namespace RemoteSigning.Token

/-- What is displayed. -/
structure Display where
  challengeId : String
  secret : ChallengeSecret
  baseUrl : Url
  /-- The instant from which tokens count their seconds. -/
  issuedAt : Nat
  /-- The time from one token to the next. -/
  period : Nat := 1000
deriving DecidableEq

namespace Display

/-- The whole seconds that have gone by. -/
def elapsedSeconds (d : Display) (now : Nat) : Nat := (now - d.issuedAt) / 1000

def freshLink (d : Display) (now : Nat) : Url :=
  link d.baseUrl (issue d.secret ⟨d.challengeId, d.elapsedSeconds now⟩)

end Display

/-- A display that runs. -/
structure Rotation where
  display : Display
  now : Nat
  /-- The link that was published last. -/
  published : Url
  count : Nat
  /-- When the next one is due, as long as the display runs. -/
  dueAt : Option Nat
deriving DecidableEq

/-- What a reader has seen: how many links had been published when it last looked for a new one. -/
abbrev Reader := Nat

/-- A reader that has seen only the first link. -/
def Reader.fresh : Reader := 1

namespace Rotation

/-- Starts a display. The first link is there at once. Without time between links there is no second
one. -/
def start (d : Display) (now : Nat) : Rotation where
  display := d
  now := now
  published := d.freshLink now
  count := 1
  dueAt := if d.period = 0 then none else some (now + d.period)

/-- The first instant after `now` at which a link is due, given one that is due by then. -/
def dueAfter (period due now : Nat) : Nat := now + period - (now - due) % period

/-- Publishes a link if one is due. What was missed meanwhile is not made up for. -/
def rotate (r : Rotation) : Rotation :=
  match r.dueAt with
  | some due =>
    if due ≤ r.now then
      { r with
        published := r.display.freshLink r.now
        count := r.count + 1
        dueAt := some (dueAfter r.display.period due r.now) }
    else r
  | none => r

/-- Lets time pass in one jump. -/
def advance (r : Rotation) (ms : Nat) : Rotation := { r with now := r.now + ms }.rotate

def stop (r : Rotation) : Rotation := { r with dueAt := none }

/-- Waits for a link that the reader has not seen; `none` if no more will come. -/
def awaitChange (r : Rotation) (reader : Reader) : Option Url × Rotation × Reader :=
  if reader < r.count then (some r.published, r, r.count)
  else
    match r.dueAt with
    | some due =>
      let r := { r with now := max r.now due }.rotate
      (some r.published, r, r.count)
    | none => (none, r, reader)

end Rotation

end RemoteSigning.Token
