import RemoteSigning.Proofs.Relay.Hubs
import Mathlib.Data.Set.Card

/-!
# The registry of rooms

Peers come and go in any order: each asks once to join a room, and if it is taken in, it stays until
it leaves. Leaving takes two steps, the second one only if the peer has left its room empty, and
others may do anything in between: join the room that is about to be given up, or leave it empty once
more. What holds of the registry holds after every single step.
-/

namespace RemoteSigning.Relay

/-- How far a peer is. -/
inductive Stay where
  | outside
  /-- The peer has joined the room and has not begun to leave. -/
  | inside (room : String)
  /-- The peer has left its room empty and has still to give it up. -/
  | clearing (room : String)
  /-- The peer has left, or has been turned away. -/
  | gone
deriving DecidableEq

/-- What happens next. -/
inductive Visit where
  | join (room : String) (peer : PeerId)
  | forward (peer : PeerId) (text : String)
  | beginLeave (peer : PeerId)
  | endLeave (peer : PeerId)
  /-- The oldest text in the queue of a peer is read. -/
  | read (peer : PeerId)
  /-- Nobody reads the queue of a peer any more. -/
  | abandon (peer : PeerId)

/-- A hub, and how far each peer is with it. -/
structure Registry where
  hub : Hub := {}
  stay : PeerId → Stay := fun _ => .outside

namespace Registry

/-- The registry with a peer that has come that far. -/
def settle (g : Registry) (peer : PeerId) (s : Stay) : Registry :=
  { g with stay := fun p => if p = peer then s else g.stay p }

/-- One step. A step that is not the peer's next one changes nothing. -/
def step (g : Registry) : Visit → Registry
  | .join room peer =>
    match g.stay peer with
    | .outside =>
      match g.hub.join? room peer with
      | some hub => { g with hub }.settle peer (.inside room)
      | none => g.settle peer .gone
    | _ => g
  | .forward peer text =>
    match g.stay peer with
    | .inside room => { g with hub := g.hub.forward room peer text }
    | _ => g
  | .beginLeave peer =>
    match g.stay peer with
    | .inside room =>
      let (empty, hub) := g.hub.beginLeave room peer
      { g with hub }.settle peer (if empty then .clearing room else .gone)
    | _ => g
  | .endLeave peer =>
    match g.stay peer with
    | .clearing room => { g with hub := g.hub.endLeave room }.settle peer .gone
    | _ => g
  | .read peer =>
    match g.hub.receive? peer with
    | some (_, hub) => { g with hub }
    | none => g
  | .abandon peer => { g with hub := g.hub.abandon peer }

def run (g : Registry) (visits : List Visit) : Registry := visits.foldl step g

def initial : Registry := {}

variable {g g' : Registry} {v : Visit} {p peer : PeerId} {room : String}

@[simp]
theorem run_nil (g : Registry) : g.run [] = g := rfl

@[simp]
theorem run_cons (g : Registry) (v : Visit) (rest : List Visit) :
    g.run (v :: rest) = (g.step v).run rest := rfl

@[simp]
theorem run_append (g : Registry) (first rest : List Visit) :
    g.run (first ++ rest) = (g.run first).run rest :=
  List.foldl_append

@[simp]
theorem hub_settle (g : Registry) (peer : PeerId) (s : Stay) : (g.settle peer s).hub = g.hub := rfl

theorem stay_settle (g : Registry) (peer : PeerId) (s : Stay) (p : PeerId) :
    (g.settle peer s).stay p = if p = peer then s else g.stay p := rfl

/-- All that one step can do. -/
inductive Step (g : Registry) : Visit → Registry → Prop where
  | idle (v : Visit) : Step g v g
  | joined {room : String} {peer : PeerId} {hub : Hub} (outside : g.stay peer = .outside)
      (taken : g.hub.join? room peer = some hub) :
      Step g (.join room peer) ({ g with hub }.settle peer (.inside room))
  | refused {room : String} {peer : PeerId} (outside : g.stay peer = .outside)
      (full : g.hub.join? room peer = none) : Step g (.join room peer) (g.settle peer .gone)
  | left {room : String} {peer : PeerId} (inside : g.stay peer = .inside room) :
      Step g (.beginLeave peer) ({ g with hub := (g.hub.beginLeave room peer).2 }.settle peer
        (if (g.hub.beginLeave room peer).1 then .clearing room else .gone))
  | cleared {room : String} {peer : PeerId} (clearing : g.stay peer = .clearing room) :
      Step g (.endLeave peer) ({ g with hub := g.hub.endLeave room }.settle peer .gone)
  /-- A text is put into queues or taken out of one, or a queue is abandoned. -/
  | queued (v : Visit) {hub : Hub} (rooms : hub.rooms = g.hub.rooms) : Step g v { g with hub }

/-- `Step` is all that a visit can do. -/
theorem step_step (g : Registry) (v : Visit) : Step g v (g.step v) := by
  cases v with
  | join room peer =>
      simp only [step]
      split
      · rename_i outside
        split
        · rename_i taken
          exact .joined outside taken
        · rename_i full
          exact .refused outside full
      · exact .idle _
  | forward peer text =>
      simp only [step]
      split
      · exact .queued _ (Hub.rooms_forward ..)
      · exact .idle _
  | beginLeave peer =>
      simp only [step]
      split
      · rename_i inside
        exact .left inside
      · exact .idle _
  | endLeave peer =>
      simp only [step]
      split
      · rename_i clearing
        exact .cleared clearing
      · exact .idle _
  | read peer =>
      simp only [step]
      split
      · rename_i received
        obtain ⟨rest, -, rfl⟩ := Hub.receive?_eq_some received
        exact .queued _ rfl
      · exact .idle _
  | abandon peer => exact .queued _ rfl

/-- The registry and the peers agree: a room holds the peers that are inside, and an empty room that
is still listed has a peer that will give it up. -/
structure Sound (g : Registry) : Prop where
  rooms : g.hub.DistinctRooms
  distinct : ∀ r, (g.hub.peers r).Nodup
  few : ∀ r, (g.hub.peers r).length ≤ roomCapacity
  inside : ∀ p r, p ∈ g.hub.peers r ↔ g.stay p = .inside r
  clearing : ∀ r, g.hub.room? r = some [] → ∃ p, g.stay p = .clearing r

/-- At first there is nobody. -/
theorem sound_initial : initial.Sound := by
  constructor <;> simp [initial, Hub.DistinctRooms, Hub.peers, Hub.room?]

/-- A peer that is taken in is in one room, for it was in none. -/
theorem Sound.joined {hub : Hub} (h : g.Sound) (outside : g.stay peer = .outside)
    (taken : g.hub.join? room peer = some hub) :
    ({ g with hub }.settle peer (.inside room)).Sound := by
  have hPeers := Hub.peers_of_join? taken
  have hNew (r : String) : peer ∉ g.hub.peers r := by
    rw [h.inside, outside]
    exact Stay.noConfusion
  constructor
  · exact h.rooms.join? taken
  · intro r
    rw [hub_settle, hPeers]
    split
    · exact (h.distinct room).append (List.nodup_singleton peer)
        (List.disjoint_singleton.mpr (hNew room))
    · exact h.distinct r
  · intro r
    rw [hub_settle, hPeers]
    split
    · rw [List.length_append, List.length_singleton]
      exact (Hub.join?_eq_some taken).1
    · exact h.few r
  · intro p r
    rw [hub_settle, hPeers, stay_settle]
    by_cases hp : p = peer
    · subst hp
      by_cases hr : r = room
      · simp [hr]
      · simp [hr, hNew r, Ne.symm hr]
    · by_cases hr : r = room
      · simp [hr, hp, h.inside]
      · simp [hr, hp, h.inside]
  · intro r hEmpty
    rw [hub_settle, Hub.room?_of_join? taken] at hEmpty
    split at hEmpty
    · simp at hEmpty
    · obtain ⟨p, hp⟩ := h.clearing r hEmpty
      refine ⟨p, ?_⟩
      rw [stay_settle, if_neg, hp]
      rintro rfl
      cases outside.symm.trans hp

/-- A peer that leaves is in no room, and gives its room up if it is empty. -/
theorem Sound.left (h : g.Sound) (inside : g.stay peer = .inside room) :
    ({ g with hub := (g.hub.beginLeave room peer).2 }.settle peer
      (if (g.hub.beginLeave room peer).1 then .clearing room else .gone)).Sound := by
  have hMember : peer ∈ g.hub.peers room := (h.inside peer room).mpr inside
  have hAnswer : (g.hub.beginLeave room peer).1 = (g.hub.staying room peer).isEmpty := by
    rw [Hub.beginLeave_eq hMember]
  have hPeers := Hub.peers_beginLeave hMember
  have hStays (p : PeerId) : p ∈ g.hub.staying room peer ↔ p ∈ g.hub.peers room ∧ p ≠ peer := by
    simp [Hub.staying]
  constructor
  · exact h.rooms.beginLeave hMember
  · intro r
    rw [hub_settle, hPeers]
    split
    · exact (h.distinct room).filter _
    · exact h.distinct r
  · intro r
    rw [hub_settle, hPeers]
    split
    · exact Nat.le_trans (List.length_filter_le _ _) (h.few room)
    · exact h.few r
  · intro p r
    rw [hub_settle, hPeers, stay_settle]
    by_cases hp : p = peer
    · subst hp
      have hElsewhere : r ≠ room → p ∉ g.hub.peers r := by
        rw [h.inside, inside]
        exact fun hr hSame => hr (Stay.inside.inj hSame).symm
      by_cases hr : r = room
      · rw [if_pos hr, if_pos rfl, hStays]
        split <;> simp
      · rw [if_neg hr, if_pos rfl, iff_false_left (hElsewhere hr)]
        split <;> exact Stay.noConfusion
    · by_cases hr : r = room
      · rw [if_pos hr, if_neg hp, hStays, hr, h.inside]
        exact and_iff_left hp
      · rw [if_neg hr, if_neg hp, h.inside]
  · intro r hEmpty
    rw [hub_settle, Hub.room?_beginLeave hMember] at hEmpty
    split at hEmpty
    · -- The peer has just left the room empty, so it will give it up itself.
      rename_i hr
      refine ⟨peer, ?_⟩
      rw [stay_settle, if_pos rfl, hAnswer, Option.some.inj hEmpty, hr]
      rfl
    · obtain ⟨p, hp⟩ := h.clearing r hEmpty
      refine ⟨p, ?_⟩
      rw [stay_settle, if_neg, hp]
      rintro rfl
      cases inside.symm.trans hp

/-- The room is given up only if it is still empty, so nobody inside is dropped; and once it is given
up, nobody needs to do it again. -/
theorem Sound.cleared (h : g.Sound) (clearing : g.stay peer = .clearing room) :
    ({ g with hub := g.hub.endLeave room }.settle peer .gone).Sound := by
  have hPeers := Hub.peers_endLeave h.rooms room
  constructor
  · exact h.rooms.endLeave room
  · intro r
    rw [hub_settle, hPeers]
    exact h.distinct r
  · intro r
    rw [hub_settle, hPeers]
    exact h.few r
  · intro p r
    rw [hub_settle, hPeers, h.inside, stay_settle]
    by_cases hp : p = peer
    · simp [hp, clearing]
    · simp [hp]
  · intro r hEmpty
    rw [hub_settle, Hub.room?_endLeave h.rooms] at hEmpty
    split at hEmpty
    · cases hEmpty
    · rename_i hKept
      obtain ⟨p, hp⟩ := h.clearing r hEmpty
      refine ⟨p, ?_⟩
      rw [stay_settle, if_neg, hp]
      rintro rfl
      obtain rfl : room = r := Stay.clearing.inj (clearing.symm.trans hp)
      exact hKept ⟨rfl, by rw [Hub.peers, hEmpty]; rfl⟩

/-- What is in the queues does not matter. -/
theorem Sound.queued {hub : Hub} (h : g.Sound) (rooms : hub.rooms = g.hub.rooms) :
    ({ g with hub } : Registry).Sound := by
  have hPeers := Hub.peers_congr rooms
  refine ⟨?_, fun r => ?_, fun r => ?_, fun p r => ?_, fun r => ?_⟩
  · rw [Hub.DistinctRooms, rooms]
    exact h.rooms
  · rw [hPeers]
    exact h.distinct r
  · rw [hPeers]
    exact h.few r
  · rw [hPeers]
    exact h.inside p r
  · rw [Hub.room?_congr rooms]
    exact h.clearing r

/-- Turning a peer away leaves all others as they are. -/
theorem Sound.refused (h : g.Sound) (outside : g.stay peer = .outside) :
    (g.settle peer .gone).Sound := by
  have hOther {p : PeerId} {s : Stay} (hs : s ≠ .gone) (hs' : s ≠ .outside) :
      (g.settle peer .gone).stay p = s ↔ g.stay p = s := by
    rw [stay_settle]
    by_cases hp : p = peer
    · simp [hp, outside, Ne.symm hs, Ne.symm hs']
    · simp [hp]
  refine ⟨h.rooms, h.distinct, h.few, fun p r => ?_, fun r hEmpty => ?_⟩
  · rw [hOther Stay.noConfusion Stay.noConfusion]
    exact h.inside p r
  · obtain ⟨p, hp⟩ := h.clearing r hEmpty
    exact ⟨p, (hOther Stay.noConfusion Stay.noConfusion).mpr hp⟩

theorem Sound.step (h : g.Sound) (hStep : Step g v g') : g'.Sound := by
  cases hStep with
  | idle => exact h
  | joined outside taken => exact h.joined outside taken
  | refused outside => exact h.refused outside
  | left inside => exact h.left inside
  | cleared clearing => exact h.cleared clearing
  | queued v rooms => exact h.queued rooms

/-- By induction on the visits: the registry stays sound. -/
theorem Sound.run (h : g.Sound) (visits : List Visit) : (g.run visits).Sound := by
  induction visits generalizing g with
  | nil => exact h
  | cons v visits ih => exact ih (h.step (step_step g v))

/-- Only its own leaving takes a peer out. -/
theorem Step.stays (h : Step g v g') (inside : g.stay p = .inside room)
    (hStays : v ≠ .beginLeave p) : g'.stay p = .inside room := by
  have hSettled (g : Registry) {q : PeerId} {s : Stay} (hs : g.stay p = .inside room)
      (hNe : p ≠ q) : (g.settle q s).stay p = .inside room := by
    rw [stay_settle, if_neg hNe, hs]
  cases h with
  | idle => exact inside
  | joined outside => exact hSettled _ inside (by rintro rfl; cases outside.symm.trans inside)
  | refused outside => exact hSettled _ inside (by rintro rfl; cases outside.symm.trans inside)
  | left => exact hSettled _ inside (by rintro rfl; exact hStays rfl)
  | cleared clearing => exact hSettled _ inside (by rintro rfl; cases clearing.symm.trans inside)
  | queued => exact inside

/-- So a peer stays in its room until it leaves it. -/
theorem stays_run (inside : g.stay p = .inside room) {visits : List Visit}
    (hStays : .beginLeave p ∉ visits) : (g.run visits).stay p = .inside room := by
  induction visits generalizing g with
  | nil => exact inside
  | cons v visits ih =>
      rw [List.mem_cons, not_or] at hStays
      exact ih ((step_step g v).stays inside (Ne.symm hStays.1)) hStays.2

/-- The count of a room is that of the peers inside. -/
theorem Sound.ncard_inside (h : g.Sound) (r : String) :
    {p | g.stay p = .inside r}.ncard = g.hub.peerCount r := by
  have hPeers : {p | g.stay p = .inside r} = ((g.hub.peers r).toFinset : Set PeerId) := by
    ext p
    simp [h.inside]
  rw [hPeers, Set.ncard_coe_finset, List.toFinset_card_of_nodup (h.distinct r), Hub.peerCount]

/-- When nobody is about to give a room up, a room is listed exactly if a peer is inside. -/
theorem Sound.isSome_room?_iff (h : g.Sound) (hQuiet : ∀ p r, g.stay p ≠ .clearing r) (r : String) :
    (g.hub.room? r).isSome ↔ ∃ p, g.stay p = .inside r := by
  simp only [← h.inside, Hub.peers]
  cases hRoom : g.hub.room? r with
  | none => simp
  | some ps =>
      cases ps with
      | nil =>
          obtain ⟨p, hp⟩ := h.clearing r hRoom
          exact absurd hp (hQuiet p r)
      | cons p ps => simp

/-- When nobody is giving a room up, the count of rooms is that of those with a peer inside. -/
theorem Sound.ncard_rooms (h : g.Sound) (hQuiet : ∀ p r, g.stay p ≠ .clearing r) :
    {r | ∃ p, g.stay p = .inside r}.ncard = g.hub.roomCount := by
  have hRooms : {r | ∃ p, g.stay p = .inside r} = ((g.hub.rooms.map (·.1)).toFinset : Set String) := by
    ext r
    rw [Set.mem_ofPred_eq, ← h.isSome_room?_iff hQuiet, Hub.room?, List.lookup_isSome_iff]
    simp
  rw [hRooms, Set.ncard_coe_finset, List.toFinset_card_of_nodup h.rooms, List.length_map,
    Hub.roomCount]

/-- After any steps of any peers, in whatever order: a listed room holds at most two peers, which are
distinct; a peer that has been taken in is in the room that it joined and in no other, until it leaves
itself; a peer is turned away only from a room in which two peers are, and nothing changes in the hub;
the count of peers is that of those inside; and when no leaving is half done, the rooms listed and
counted are those with a peer inside. -/
theorem registry_sound (visits : List Visit) :
    let g := initial.run visits
    (∀ r ps, (r, ps) ∈ g.hub.rooms → ps.length ≤ 2 ∧ ps.Nodup) ∧
    (∀ p room, g.stay p = .inside room → ∀ more, .beginLeave p ∉ more →
      ∀ r, p ∈ (g.run more).hub.peers r ↔ r = room) ∧
    (∀ p room, g.hub.join? room p = none →
      {q | g.stay q = .inside room}.ncard = 2 ∧ (g.step (.join room p)).hub = g.hub) ∧
    (∀ r, g.hub.peerCount r = {p | g.stay p = .inside r}.ncard) ∧
    ((∀ p r, g.stay p ≠ .clearing r) →
      (∀ r, (g.hub.room? r).isSome ↔ ∃ p, g.stay p = .inside r) ∧
      g.hub.roomCount = {r | ∃ p, g.stay p = .inside r}.ncard) := by
  intro g
  have h : g.Sound := sound_initial.run visits
  refine ⟨fun r ps hRoom => ?_, fun p room inside more hStays r => ?_, fun p room full => ?_,
    fun r => (h.ncard_inside r).symm, fun hQuiet => ?_⟩
  · rw [← Hub.peers_of_mem h.rooms hRoom]
    exact ⟨h.few r, h.distinct r⟩
  · rw [(h.run more).inside, stays_run inside hStays]
    exact ⟨fun hSame => (Stay.inside.inj hSame).symm, fun hSame => congrArg Stay.inside hSame.symm⟩
  · refine ⟨?_, ?_⟩
    · rw [h.ncard_inside]
      exact Nat.le_antisymm (h.few room) (Hub.join?_eq_none.mp full)
    · simp only [Registry.step, full]
      split <;> rfl
  · exact ⟨h.isSome_room?_iff hQuiet, (h.ncard_rooms hQuiet).symm⟩

end Registry

end RemoteSigning.Relay
