import RemoteSigning.Relay.Hub
import RemoteSigning.Text.Utf8
/-!
# Peers of a relay

How a relay treats the socket of a peer from its first moment to its last: the peer joins a room or
is turned away, what it sends is passed on, and in the end it leaves.
-/

namespace RemoteSigning.Relay

open Session

/-- What arrives on the socket of a peer. -/
inductive PeerMessage where
  | text (content : String)
  | octets (content : List UInt8)
  /-- What only keeps the connection alive. -/
  | keepAlive
  | close
  | broken
deriving DecidableEq

/-- Whether a peer stays after a message. It has to leave if it sends octets or a text that is too
long. -/
def PeerMessage.keepsPeer (longest : Nat) : PeerMessage → Bool
  | .text content => (Text.octets content).length ≤ longest
  | .keepAlive => true
  | _ => false

/-- A peer and the room that it has joined. -/
structure Seat where
  room : String
  peer : PeerId
deriving DecidableEq, Repr

/-- What a peer is sent that is turned away. -/
def turnAwayText : String := Event.busy.text

namespace Hub

def seat (h : Hub) (s : Seat) : Except String Hub :=
  match h.join? s.room s.peer with
  | some h => .ok h
  | none => .error turnAwayText

/-- Handles a message of a peer. Texts go to the other peer; a peer that does not stay leaves. -/
def handleMessage (longest : Nat) (s : Seat) (h : Hub) (m : PeerMessage) : Hub :=
  if m.keepsPeer longest then
    match m with
    | .text content => h.forward s.room s.peer content
    | _ => h
  else h.leave s.room s.peer

/-- Handles messages of a peer up to the one with which it leaves. A peer whose socket ends leaves
too. -/
def handleMessages (longest : Nat) (s : Seat) (h : Hub) : List PeerMessage → Hub
  | [] => h.leave s.room s.peer
  | m :: rest =>
    let h := h.handleMessage longest s m
    if m.keepsPeer longest then handleMessages longest s h rest else h

end Hub

end RemoteSigning.Relay
