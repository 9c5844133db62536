import RemoteSigning.Relay.Peer
import RemoteSigning.Proofs.Relay.Registry

/-!
# Peers in the registry

A relay serves all its sockets at once, so between two steps for one socket it may do anything for
the others. Every step for a socket is a step of the registry, which therefore stays sound, and a room
that nobody uses any more is given up. A socket that is served without another step in between is
treated as `Hub.seat` and `Hub.handleMessages` say.
-/

namespace RemoteSigning.Relay

/-- How far the service of a socket is. -/
inductive Service where
  /-- The peer has not been let in yet. -/
  | asked (room : String) (messages : List PeerMessage)
  /-- The peer is in the room, and these messages are still to be read. -/
  | seated (room : String) (messages : List PeerMessage)
  /-- The peer has left its room empty, which has still to be given up. -/
  | clearing (room : String)
  | over
deriving DecidableEq

/-- How far the peer is in the registry. -/
def Service.stay : Service → Stay
  | .asked .. => .outside
  | .seated room _ => .inside room
  | .clearing room => .clearing room
  | .over => .gone

/-- What a relay does next. -/
inductive Turn where
  /-- The next step is made for the socket of a peer. -/
  | serve (peer : PeerId)
  /-- The oldest text in the queue of a peer is sent. -/
  | send (peer : PeerId)
  /-- A text could not be sent, so nothing more is. -/
  | stopSending (peer : PeerId)
deriving DecidableEq

/-- A hub with all the sockets that are served. -/
structure Sockets where
  hub : Hub := {}
  service : PeerId → Service

namespace Sockets

/-- The sockets with a changed hub, and with the service of one socket gone on. -/
def goOn (s : Sockets) (peer : PeerId) (hub : Hub) (service : Service) : Sockets :=
  { hub, service := fun p => if p = peer then service else s.service p }

/-- Takes a peer out of its room, which is the first half of leaving. -/
def startLeaving (s : Sockets) (room : String) (peer : PeerId) : Sockets :=
  let (empty, hub) := s.hub.beginLeave room peer
  s.goOn peer hub (if empty then .clearing room else .over)

/-- The next step for the socket of a peer. -/
def serve (longest : Nat) (s : Sockets) (peer : PeerId) : Sockets :=
  match s.service peer with
  | .asked room messages =>
    match s.hub.seat ⟨room, peer⟩ with
    | .ok hub => s.goOn peer hub (.seated room messages)
    | .error _ => s.goOn peer s.hub .over
  | .seated room [] => s.startLeaving room peer
  | .seated room (m :: rest) =>
    if m.keepsPeer longest then
      s.goOn peer (s.hub.handleMessage longest ⟨room, peer⟩ m) (.seated room rest)
    else s.startLeaving room peer
  | .clearing room => s.goOn peer (s.hub.endLeave room) .over
  | .over => s

def step (longest : Nat) (s : Sockets) : Turn → Sockets
  | .serve peer => s.serve longest peer
  | .send peer =>
    match s.hub.receive? peer with
    | some (_, hub) => { s with hub }
    | none => s
  | .stopSending peer => { s with hub := s.hub.abandon peer }

def run (longest : Nat) (s : Sockets) (turns : List Turn) : Sockets := turns.foldl (step longest) s

/-- The registry that the sockets see. -/
def registry (s : Sockets) : Registry := { hub := s.hub, stay := fun p => (s.service p).stay }

variable {s s' : Sockets} {longest : Nat} {peer : PeerId} {room : String}
  {messages : List PeerMessage}

@[simp]
theorem run_nil (longest : Nat) (s : Sockets) : s.run longest [] = s := rfl

@[simp]
theorem run_cons (longest : Nat) (s : Sockets) (t : Turn) (turns : List Turn) :
    s.run longest (t :: turns) = (s.step longest t).run longest turns := rfl

/-- When a service goes on, the registry sees the change of its peer. -/
theorem registry_goOn (s : Sockets) (peer : PeerId) (hub : Hub) (service : Service) :
    (s.goOn peer hub service).registry = { s.registry with hub }.settle peer service.stay := by
  simp only [registry, goOn, Registry.settle, Registry.mk.injEq, true_and]
  funext p
  split <;> rfl

/-- A peer whose service goes on in its room is settled there already. -/
theorem registry_goOn_seated (seated : s.service peer = .seated room messages) (hub : Hub)
    (rest : List PeerMessage) :
    (s.goOn peer hub (.seated room rest)).registry = { s.registry with hub } := by
  simp only [registry, goOn, Registry.mk.injEq, true_and]
  funext p
  split
  · rename_i hp
    rw [hp, seated]
    rfl
  · rfl

/-- The first half of leaving is a visit. -/
theorem registry_startLeaving (inside : (s.service peer).stay = .inside room) :
    (s.startLeaving room peer).registry = s.registry.step (.beginLeave peer) := by
  have hStay : s.registry.stay peer = .inside room := inside
  simp only [Registry.step, hStay, startLeaving, registry_goOn]
  have hHub : s.registry.hub = s.hub := rfl
  rw [hHub, apply_ite Service.stay]
  rfl

/-- Every step for a socket is a step of the registry, or the registry does not notice it. -/
theorem exists_visits_serve (longest : Nat) (s : Sockets) (peer : PeerId) :
    ∃ visits, (s.serve longest peer).registry = s.registry.run visits := by
  have hStay : s.registry.stay peer = (s.service peer).stay := rfl
  unfold serve
  split
  · rename_i room messages asked
    rw [asked] at hStay
    refine ⟨[.join room peer], ?_⟩
    simp only [Registry.run_cons, Registry.run_nil, Registry.step, hStay, Service.stay, Hub.seat]
    have hHub : s.registry.hub = s.hub := rfl
    rw [hHub]
    cases s.hub.join? room peer with
    | some hub => exact registry_goOn s peer hub (.seated room messages)
    | none => exact registry_goOn s peer s.hub .over
  · rename_i room seated
    exact ⟨[.beginLeave peer], registry_startLeaving (by rw [seated]; rfl)⟩
  · rename_i room m rest seated
    rw [seated] at hStay
    split
    · rename_i hKept
      rw [registry_goOn_seated seated]
      cases m with
      | text content =>
          refine ⟨[.forward peer content], ?_⟩
          simp only [Registry.run_cons, Registry.run_nil, Registry.step, hStay, Service.stay,
            Hub.handleMessage, hKept, if_true]
          rfl
      | keepAlive =>
          refine ⟨[], ?_⟩
          simp only [Registry.run_nil, Hub.handleMessage, hKept, if_true]
          rfl
      | octets | close | broken => cases hKept
    · exact ⟨[.beginLeave peer], registry_startLeaving (by rw [seated]; rfl)⟩
  · rename_i room clearing
    rw [clearing] at hStay
    refine ⟨[.endLeave peer], ?_⟩
    simp only [Registry.run_cons, Registry.run_nil, Registry.step, hStay, Service.stay]
    exact registry_goOn ..
  · exact ⟨[], rfl⟩

/-- So is every turn, unless it goes unnoticed. -/
theorem exists_visits_step (longest : Nat) (s : Sockets) (t : Turn) :
    ∃ visits, (s.step longest t).registry = s.registry.run visits := by
  cases t with
  | serve peer => exact exists_visits_serve longest s peer
  | send peer =>
      refine ⟨[.read peer], ?_⟩
      simp only [step, Registry.run_cons, Registry.run_nil, Registry.step]
      have hHub : s.registry.hub = s.hub := rfl
      rw [hHub]
      cases s.hub.receive? peer <;> rfl
  | stopSending peer => exact ⟨[.abandon peer], rfl⟩

/-- A relay that serves sockets, whichever it turns to and when, goes through a run of the registry. -/
theorem exists_visits_run (longest : Nat) (s : Sockets) (turns : List Turn) :
    ∃ visits, (s.run longest turns).registry = s.registry.run visits := by
  induction turns generalizing s with
  | nil => exact ⟨[], rfl⟩
  | cons t turns ih =>
      obtain ⟨first, hFirst⟩ := exists_visits_step longest s t
      obtain ⟨rest, hRest⟩ := ih (s.step longest t)
      refine ⟨first ++ rest, ?_⟩
      rw [run_cons, hRest, hFirst, Registry.run_append]

/-- The sockets of a relay that has let nobody in yet. -/
def opened (rooms : PeerId → String) (messages : PeerId → List PeerMessage) : Sockets :=
  { service := fun p => .asked (rooms p) (messages p) }

/-- Whatever the peers send and in whatever order they are served: a peer is in the room in which it
was seated as long as its messages are read, and in none otherwise; and once no socket is being served,
there is no room left. -/
theorem peers_iff_seated (rooms : PeerId → String) (messages : PeerId → List PeerMessage)
    (longest : Nat) (turns : List Turn) :
    let s := (opened rooms messages).run longest turns
    (∀ p room, p ∈ s.hub.peers room ↔ ∃ rest, s.service p = .seated room rest) ∧
    ((∀ p, s.service p = .over ∨ ∃ room rest, s.service p = .asked room rest) → s.hub.rooms = []) := by
  intro s
  obtain ⟨visits, hVisits⟩ := exists_visits_run longest (opened rooms messages) turns
  have hSound : s.registry.Sound := by
    rw [hVisits]
    exact Registry.sound_initial.run visits
  have hSeated (p : PeerId) (room : String) :
      s.registry.stay p = .inside room ↔ ∃ rest, s.service p = .seated room rest := by
    show (s.service p).stay = _ ↔ _
    cases s.service p <;> simp [Service.stay]
  refine ⟨fun p room => (hSound.inside p room).trans (hSeated p room), fun hQuiet => ?_⟩
  have hIdle (p : PeerId) (room : String) :
      s.registry.stay p ≠ .inside room ∧ s.registry.stay p ≠ .clearing room := by
    show (s.service p).stay ≠ _ ∧ (s.service p).stay ≠ _
    rcases hQuiet p with hOver | ⟨_, _, hAsked⟩
    · simp [hOver, Service.stay]
    · simp [hAsked, Service.stay]
  by_contra hSome
  obtain ⟨⟨room, ps⟩, hRoom⟩ := List.exists_mem_of_ne_nil _ hSome
  have hListed : (s.registry.hub.room? room).isSome := by
    rw [Hub.room?, List.lookup_isSome_iff]
    exact ⟨_, hRoom, beq_self_eq_true room⟩
  obtain ⟨p, hInside⟩ := (hSound.isSome_room?_iff (fun p r => (hIdle p r).2) room).mp hListed
  exact (hIdle p room).1 hInside

theorem service_goOn (s : Sockets) (peer : PeerId) (hub : Hub) (service : Service) :
    (s.goOn peer hub service).service peer = service := if_pos rfl

theorem goOn_goOn (s : Sockets) (peer : PeerId) (hub hub' : Hub) (service service' : Service) :
    (s.goOn peer hub service).goOn peer hub' service' = s.goOn peer hub' service' := by
  simp only [goOn, Sockets.mk.injEq, true_and]
  funext p
  by_cases hp : p = peer <;> simp [hp]

/-- Undisturbed, both halves of leaving are one. -/
theorem run_startLeaving (longest : Nat) (s : Sockets) (room : String) (peer : PeerId) :
    ∃ turns, (s.startLeaving room peer).run longest (List.replicate turns (.serve peer)) =
      s.goOn peer (s.hub.leave room peer) .over := by
  rw [startLeaving, Hub.leave]
  rcases s.hub.beginLeave room peer with ⟨_ | _, hub⟩
  · exact ⟨0, rfl⟩
  · refine ⟨1, ?_⟩
    simp only [List.replicate_one, run_cons, run_nil, step, serve, service_goOn, goOn_goOn, if_true]
    rfl

/-- By induction on the messages: undisturbed, they are handled one after the other. -/
theorem run_seated (longest : Nat) (seated : s.service peer = .seated room messages) :
    ∃ turns, s.run longest (List.replicate turns (.serve peer)) =
      s.goOn peer (s.hub.handleMessages longest ⟨room, peer⟩ messages) .over := by
  induction messages generalizing s with
  | nil =>
      obtain ⟨turns, hTurns⟩ := run_startLeaving longest s room peer
      refine ⟨turns + 1, ?_⟩
      rw [List.replicate_succ, run_cons, step, serve, seated]
      exact hTurns
  | cons m rest ih =>
      by_cases hKept : m.keepsPeer longest
      · let next := s.goOn peer (s.hub.handleMessage longest ⟨room, peer⟩ m) (.seated room rest)
        obtain ⟨turns, hTurns⟩ := ih (s := next) (service_goOn ..)
        refine ⟨turns + 1, ?_⟩
        simp only [List.replicate_succ, run_cons, step, serve, seated, hKept, if_true,
          Hub.handleMessages]
        rw [hTurns, goOn_goOn]
        rfl
      · obtain ⟨turns, hTurns⟩ := run_startLeaving longest s room peer
        refine ⟨turns + 1, ?_⟩
        simp only [List.replicate_succ, run_cons, step, serve, seated, hKept, Bool.false_eq_true,
          if_false, Hub.handleMessages, Hub.handleMessage]
        exact hTurns

/-- A socket to which a relay turns again and again, and to no other, is served to its end: its peer is
turned away, or all its messages are handled. The other sockets are served as before. -/
theorem run_alone (longest : Nat) (asked : s.service peer = .asked room messages) :
    ∃ turns, s.run longest (List.replicate turns (.serve peer)) =
      s.goOn peer
        (match s.hub.seat ⟨room, peer⟩ with
        | .ok hub => hub.handleMessages longest ⟨room, peer⟩ messages
        | .error _ => s.hub) .over := by
  cases hSeat : s.hub.seat ⟨room, peer⟩ with
  | error text =>
      refine ⟨1, ?_⟩
      simp only [List.replicate_one, run_cons, run_nil, step, serve, asked, hSeat]
  | ok hub =>
      let next := s.goOn peer hub (.seated room messages)
      obtain ⟨turns, hTurns⟩ := run_seated (s := next) longest (service_goOn ..)
      refine ⟨turns + 1, ?_⟩
      simp only [List.replicate_succ, run_cons, step, serve, asked, hSeat]
      rw [hTurns, goOn_goOn]
      rfl

end Sockets

end RemoteSigning.Relay
