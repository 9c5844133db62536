import RemoteSigning.Session.Frame
/-!
# The hub of a relay

Rooms of at most two peers. Whoever joins or leaves a room changes who is there, which all peers in
the room are told; and what one peer sends, the other one gets. Each peer has a queue, and what does
not fit into it is lost.

Joining and forwarding are single steps. Leaving is two: the peer is taken out of the room, and then
the room is given up if it is still empty, so that another peer can join in between.
-/

namespace RemoteSigning.Relay

open Session

/-- The name of a peer. No two peers have the same. -/
abbrev PeerId := Nat

/-- What waits for a peer. -/
structure Queue where
  /-- The texts that have not been read, oldest first. -/
  texts : List String := []
  /-- Whether nothing more will be put in, because the peer has left its room. -/
  closed : Bool := false
  /-- Whether nobody reads any more. -/
  abandoned : Bool := false
deriving DecidableEq, Repr

def queueCapacity : Nat := 32

def roomCapacity : Nat := 2

/-- Puts a text into a queue, unless it is full or abandoned. -/
def Queue.deliver (q : Queue) (text : String) : Queue :=
  if q.abandoned ∨ queueCapacity ≤ q.texts.length then q else { q with texts := q.texts ++ [text] }

/-- The hub. -/
structure Hub where
  /-- The rooms with the peers in them, each in the order in which they joined. -/
  rooms : List (String × List PeerId) := []
  queues : PeerId → Queue := fun _ => {}

namespace Hub

/-- The peers in a room, or `none` if there is no such room. -/
def room? (h : Hub) (room : String) : Option (List PeerId) := h.rooms.lookup room

def peers (h : Hub) (room : String) : List PeerId := (h.room? room).getD []

def updateQueue (h : Hub) (peer : PeerId) (change : Queue → Queue) : Hub :=
  { h with queues := fun p => if p = peer then change (h.queues p) else h.queues p }

def setRoom (room : String) (peers : List PeerId) :
    List (String × List PeerId) → List (String × List PeerId)
  | [] => [(room, peers)]
  | (r, ps) :: rest => if r = room then (r, peers) :: rest else (r, ps) :: setRoom room peers rest

def deliverAll (h : Hub) (peers : List PeerId) (text : String) : Hub :=
  peers.foldl (fun h p => h.updateQueue p (·.deliver text)) h

/-- What peers are told when there are that many in their room. -/
def announcement (count : Nat) : Event := if roomCapacity ≤ count then .ready else .waiting

def announce (h : Hub) (room : String) : Hub :=
  let peers := h.peers room
  h.deliverAll peers (announcement peers.length).text

/-- Takes a new peer into a room, or `none` if the room is full. -/
def join? (h : Hub) (room : String) (peer : PeerId) : Option Hub :=
  let peers := h.peers room
  if roomCapacity ≤ peers.length then none
  else
    let h := h.updateQueue peer fun _ => {}
    some ({ h with rooms := setRoom room (peers ++ [peer]) h.rooms }.announce room)

/-- The wording of the answer to a peer for which there is no room. -/
def fullMessage (room : String) : String := "room " ++ room ++ " is full"

def forward (h : Hub) (room : String) (sender : PeerId) (text : String) : Hub :=
  h.deliverAll ((h.peers room).filter (· != sender)) text

/-- Takes a peer out of a room, and tells those who stay. The answer is whether nobody stays. -/
def beginLeave (h : Hub) (room : String) (peer : PeerId) : Bool × Hub :=
  match h.room? room with
  | none => (false, h)
  | some peers =>
    let staying := peers.filter (· != peer)
    let h := if peers.contains peer then h.updateQueue peer ({ · with closed := true }) else h
    let h := { h with rooms := setRoom room staying h.rooms }
    (staying.isEmpty, if staying.isEmpty then h else h.announce room)

/-- Gives a room up if nobody is in it. -/
def endLeave (h : Hub) (room : String) : Hub :=
  { h with rooms := h.rooms.filter fun r => r.1 != room || !r.2.isEmpty }

/-- Takes a peer out of a room, without another step in between. -/
def leave (h : Hub) (room : String) (peer : PeerId) : Hub :=
  let (empty, h) := h.beginLeave room peer
  if empty then h.endLeave room else h

def drain (h : Hub) (peer : PeerId) : List String × Hub :=
  ((h.queues peer).texts, h.updateQueue peer ({ · with texts := [] }))

def receive? (h : Hub) (peer : PeerId) : Option (String × Hub) :=
  match (h.queues peer).texts with
  | [] => none
  | text :: rest => some (text, h.updateQueue peer ({ · with texts := rest }))

def abandon (h : Hub) (peer : PeerId) : Hub := h.updateQueue peer ({ · with abandoned := true })

def roomCount (h : Hub) : Nat := h.rooms.length

def peerCount (h : Hub) (room : String) : Nat := (h.peers room).length

end Hub

end RemoteSigning.Relay
