import RemoteSigning.Relay.Hub
import Mathlib.Data.List.Nodup

/-!
# Operations of a hub

What each operation does to the peers of a room and to the queue of a peer. The rooms of a hub have
distinct names, which every operation keeps; so a room that is given up is gone.
-/

namespace RemoteSigning.Relay

open Session

variable {h h' : Hub} {room r : String} {peer p : PeerId} {text : String}

/-- Whether a queue takes another text. -/
def Queue.hasPlace (q : Queue) : Bool := !q.abandoned && q.texts.length < 32

/-- A text is added to a queue that has a place for it, and otherwise it is lost. -/
theorem Queue.texts_deliver (q : Queue) (text : String) :
    (q.deliver text).texts = q.texts ++ if q.hasPlace then [text] else [] := by
  simp only [deliver, hasPlace, queueCapacity, Bool.and_eq_true, Bool.not_eq_true', decide_eq_true_eq]
  by_cases hAbandoned : q.abandoned
  · simp [hAbandoned]
  · by_cases hFull : 32 ≤ q.texts.length
    · simp [hFull]
    · simp [hAbandoned, hFull, Nat.not_le.mp hFull]

theorem Queue.deliver_of_lt {q : Queue} (hReads : q.abandoned = false)
    (hRoom : q.texts.length < queueCapacity) (text : String) :
    q.deliver text = { q with texts := q.texts ++ [text] } := by
  rw [deliver, if_neg]
  simp only [hReads, Bool.false_eq_true, false_or]
  exact Nat.not_le.mpr hRoom

namespace Hub

@[simp]
theorem rooms_updateQueue (h : Hub) (peer : PeerId) (change : Queue → Queue) :
    (h.updateQueue peer change).rooms = h.rooms := rfl

theorem queues_updateQueue (h : Hub) (peer : PeerId) (change : Queue → Queue) (p : PeerId) :
    (h.updateQueue peer change).queues p = if p = peer then change (h.queues p) else h.queues p :=
  rfl

@[simp]
theorem rooms_deliverAll (h : Hub) (peers : List PeerId) (text : String) :
    (h.deliverAll peers text).rooms = h.rooms := by
  induction peers generalizing h with
  | nil => rfl
  | cons q peers ih => exact ih (h.updateQueue q (·.deliver text))

/-- Each of the peers gets the text once. -/
theorem queues_deliverAll (h : Hub) {peers : List PeerId} (hDistinct : peers.Nodup) (text : String)
    (p : PeerId) :
    (h.deliverAll peers text).queues p =
      if p ∈ peers then (h.queues p).deliver text else h.queues p := by
  induction peers generalizing h with
  | nil => rfl
  | cons q peers ih =>
      obtain ⟨hNew, hRest⟩ := List.nodup_cons.mp hDistinct
      have hStep := ih (h.updateQueue q (·.deliver text)) hRest
      simp only [deliverAll, List.foldl_cons] at hStep ⊢
      rw [hStep, queues_updateQueue]
      by_cases hp : p = q
      · subst hp
        simp [hNew]
      · simp [hp]

/-- Whether no room is listed twice. -/
def DistinctRooms (h : Hub) : Prop := (h.rooms.map (·.1)).Nodup

theorem room?_congr (hRooms : h'.rooms = h.rooms) (r : String) : h'.room? r = h.room? r := by
  rw [room?, room?, hRooms]

theorem peers_congr (hRooms : h'.rooms = h.rooms) (r : String) : h'.peers r = h.peers r := by
  rw [peers, peers, room?_congr hRooms]

/-- Setting a room changes this room only. -/
theorem lookup_setRoom (room r : String) (peers : List PeerId) (rooms : List (String × List PeerId)) :
    (setRoom room peers rooms).lookup r = if r = room then some peers else rooms.lookup r := by
  induction rooms with
  | nil =>
      by_cases h : r = room <;> simp [setRoom, h]
  | cons first rest ih =>
      obtain ⟨name, ps⟩ := first
      by_cases h : r = name
      · subst h
        by_cases hName : r = room <;> simp [setRoom, hName]
      · have hOther : (r == name) = false := beq_false_of_ne h
        by_cases hName : name = room
        · subst hName
          simp [setRoom, h, hOther, List.lookup_cons]
        · simp [setRoom, hName, hOther, List.lookup_cons, ih]

/-- A room that is set is listed where it was, or last if it is new. -/
theorem names_setRoom (room : String) (peers : List PeerId) (rooms : List (String × List PeerId)) :
    (setRoom room peers rooms).map (·.1) =
      if room ∈ rooms.map (·.1) then rooms.map (·.1) else rooms.map (·.1) ++ [room] := by
  induction rooms with
  | nil => simp [setRoom]
  | cons first rest ih =>
      obtain ⟨name, ps⟩ := first
      by_cases hName : name = room
      · simp [setRoom, hName]
      · rw [setRoom, if_neg hName, List.map_cons, ih]
        by_cases hOld : room ∈ rest.map (·.1)
        · simp [hOld]
        · simp [hOld, Ne.symm hName]

/-- The hub with a room that has other peers in it. -/
def withRoom (h : Hub) (room : String) (peers : List PeerId) : Hub :=
  { h with rooms := setRoom room peers h.rooms }

theorem room?_withRoom (h : Hub) (room : String) (peers : List PeerId) (r : String) :
    (h.withRoom room peers).room? r = if r = room then some peers else h.room? r :=
  lookup_setRoom ..

theorem peers_withRoom (h : Hub) (room : String) (peers : List PeerId) (r : String) :
    (h.withRoom room peers).peers r = if r = room then peers else h.peers r := by
  rw [Hub.peers, room?_withRoom]
  split <;> rfl

/-- No room is listed twice when one is set. -/
theorem DistinctRooms.withRoom (hRooms : h.DistinctRooms) (room : String) (peers : List PeerId) :
    (h.withRoom room peers).DistinctRooms := by
  rw [DistinctRooms, Hub.withRoom, names_setRoom]
  split
  · exact hRooms
  · rename_i hNew
    exact hRooms.append (List.nodup_singleton room) (List.disjoint_singleton.mpr hNew)

/-- The peers of a room are those with which it is listed. -/
theorem peers_of_mem (hRooms : h.DistinctRooms) {peers : List PeerId}
    (hRoom : (room, peers) ∈ h.rooms) : h.peers room = peers := by
  have hLookup : ∀ rooms : List (String × List PeerId), (rooms.map (·.1)).Nodup →
      (room, peers) ∈ rooms → rooms.lookup room = some peers := by
    intro rooms hDistinct hMem
    induction rooms with
    | nil => cases hMem
    | cons first rest ih =>
        obtain ⟨hNew, hRest⟩ := List.nodup_cons.mp hDistinct
        rcases List.mem_cons.mp hMem with rfl | hMem
        · simp
        · have hOther : (room == first.1) = false :=
            beq_false_of_ne fun hSame => hNew (List.mem_map.mpr ⟨_, hMem, hSame⟩)
          rw [List.lookup_cons, hOther]
          exact ih hRest hMem
  rw [Hub.peers, room?, hLookup h.rooms hRooms hRoom]
  rfl

/-- If no name is listed twice, what a list keeps is found under its name and the rest is not. -/
theorem lookup_filter {rooms : List (String × List PeerId)} (hDistinct : (rooms.map (·.1)).Nodup)
    (keep : String × List PeerId → Bool) (r : String) :
    (rooms.filter keep).lookup r = (rooms.lookup r).filter fun peers => keep (r, peers) := by
  induction rooms with
  | nil => rfl
  | cons first rest ih =>
      obtain ⟨name, ps⟩ := first
      obtain ⟨hNew, hRest⟩ := List.nodup_cons.mp hDistinct
      have hKept := ih hRest
      by_cases hName : r = name
      · subst hName
        have hGone : rest.lookup r = none := by
          rw [List.lookup_eq_none_iff]
          rintro ⟨other, qs⟩ hOther
          exact bne_iff_ne.mpr fun hSame => hNew (List.mem_map.mpr ⟨_, hOther, hSame.symm⟩)
        rw [hGone, Option.filter_none] at hKept
        by_cases hFirst : keep (r, ps) = true
        · simp [List.filter_cons_of_pos hFirst, Option.filter_some, hFirst]
        · simp [List.filter_cons_of_neg hFirst, Option.filter_some, hFirst, hKept]
      · have hOther : (r == name) = false := beq_false_of_ne hName
        rw [List.lookup_cons, hOther, ← hKept, List.filter_cons]
        split
        · rw [List.lookup_cons, hOther]
        · rfl

/-- A room is given up only if it is empty. -/
theorem room?_endLeave (hRooms : h.DistinctRooms) (room r : String) :
    (h.endLeave room).room? r = if r = room ∧ h.peers room = [] then none else h.room? r := by
  have hLookup : (h.endLeave room).room? r =
      (h.room? r).filter fun ps => r != room || !ps.isEmpty := lookup_filter hRooms _ r
  rw [hLookup, peers]
  by_cases hr : r = room
  · subst hr
    cases h.room? r with
    | none => simp
    | some ps => cases ps <;> simp [Option.filter_some]
  · cases h.room? r <;> simp [Option.filter_some, hr]

/-- Giving a room up takes nobody out of any room. -/
theorem peers_endLeave (hRooms : h.DistinctRooms) (room r : String) :
    (h.endLeave room).peers r = h.peers r := by
  rw [peers, room?_endLeave hRooms]
  split
  · rename_i hGone
    rw [hGone.1, hGone.2]
    rfl
  · rfl

theorem DistinctRooms.endLeave (hRooms : h.DistinctRooms) (room : String) :
    (h.endLeave room).DistinctRooms :=
  hRooms.sublist (List.filter_sublist.map _)

@[simp]
theorem queues_endLeave (h : Hub) (room : String) : (h.endLeave room).queues = h.queues := rfl

/-- A peer is told whether it is alone in its room. -/
theorem announcement_eq {peers : List PeerId} (hp : p ∈ peers) :
    announcement peers.length = if peers.length = 1 then .waiting else .ready := by
  have hSome := List.length_pos_of_mem hp
  rw [announcement, roomCapacity]
  grind

theorem rooms_announce (h : Hub) (room : String) : (h.announce room).rooms = h.rooms :=
  rooms_deliverAll ..

/-- Everybody in the room is told, and nobody else. -/
theorem queues_announce {h : Hub} {room : String} (hDistinct : (h.peers room).Nodup) (p : PeerId) :
    (h.announce room).queues p =
      if p ∈ h.peers room then (h.queues p).deliver (announcement (h.peers room).length).text
      else h.queues p :=
  queues_deliverAll h hDistinct _ p

/-- The hub with a new peer in a room, which nobody has been told of yet. -/
def seated (h : Hub) (room : String) (peer : PeerId) : Hub :=
  (h.updateQueue peer fun _ => {}).withRoom room (h.peers room ++ [peer])

theorem join?_eq (h : Hub) (room : String) (peer : PeerId) :
    h.join? room peer =
      if roomCapacity ≤ (h.peers room).length then none
      else some ((h.seated room peer).announce room) :=
  rfl

/-- A peer is turned away exactly from a room that is full. -/
theorem join?_eq_none : h.join? room peer = none ↔ roomCapacity ≤ (h.peers room).length := by
  rw [join?_eq]
  split <;> simp_all

/-- A peer is taken into a room with a free place, and all in it are told. -/
theorem join?_eq_some (hJoin : h.join? room peer = some h') :
    (h.peers room).length < roomCapacity ∧ h' = (h.seated room peer).announce room := by
  rw [join?_eq] at hJoin
  split at hJoin
  · cases hJoin
  · rename_i hRoom
    exact ⟨Nat.not_le.mp hRoom, (Option.some.inj hJoin).symm⟩

theorem peers_seated (h : Hub) (room : String) (peer : PeerId) (r : String) :
    (h.seated room peer).peers r = if r = room then h.peers room ++ [peer] else h.peers r :=
  peers_withRoom ..

theorem room?_of_join? (hJoin : h.join? room peer = some h') (r : String) :
    h'.room? r = if r = room then some (h.peers room ++ [peer]) else h.room? r := by
  obtain ⟨-, rfl⟩ := join?_eq_some hJoin
  rw [room?_congr (rooms_announce ..)]
  exact room?_withRoom ..

/-- The new peer is the last one of its room. -/
theorem peers_of_join? (hJoin : h.join? room peer = some h') (r : String) :
    h'.peers r = if r = room then h.peers room ++ [peer] else h.peers r := by
  obtain ⟨-, rfl⟩ := join?_eq_some hJoin
  rw [peers_congr (rooms_announce ..), peers_seated]

theorem DistinctRooms.join? (hRooms : h.DistinctRooms) (hJoin : h.join? room peer = some h') :
    h'.DistinctRooms := by
  obtain ⟨-, rfl⟩ := join?_eq_some hJoin
  rw [DistinctRooms, rooms_announce]
  exact DistinctRooms.withRoom (h := h.updateQueue peer fun _ => {}) hRooms _ _

/-- A peer that is taken in has a fresh queue, which holds the announcement; the other peer of the
room is told as well. -/
theorem queues_of_join? (hJoin : h.join? room peer = some h') (hPeers : (h.peers room).Nodup)
    (hNew : peer ∉ h.peers room) (p : PeerId) :
    h'.queues p =
      if p = peer then { texts := [(announcement ((h.peers room).length + 1)).text] }
      else if p ∈ h.peers room then
        (h.queues p).deliver (announcement ((h.peers room).length + 1)).text
      else h.queues p := by
  obtain ⟨-, rfl⟩ := join?_eq_some hJoin
  have hSeated : (h.seated room peer).peers room = h.peers room ++ [peer] := by
    rw [peers_seated, if_pos rfl]
  have hDistinct : (h.peers room ++ [peer]).Nodup :=
    hPeers.append (List.nodup_singleton peer) (List.disjoint_singleton.mpr hNew)
  rw [queues_announce (hSeated ▸ hDistinct), hSeated, List.length_append, List.length_singleton]
  have hQueue : (h.seated room peer).queues p = if p = peer then {} else h.queues p := rfl
  rw [hQueue]
  by_cases hSame : p = peer
  · simp [hSame, Queue.deliver, queueCapacity]
  · simp [hSame]

@[simp]
theorem rooms_forward (h : Hub) (room : String) (sender : PeerId) (text : String) :
    (h.forward room sender text).rooms = h.rooms :=
  rooms_deliverAll ..

/-- What a peer sends goes to the others in its room. -/
theorem queues_forward {h : Hub} (hPeers : (h.peers room).Nodup) (sender : PeerId) (text : String)
    (p : PeerId) :
    (h.forward room sender text).queues p =
      if p ∈ h.peers room ∧ p ≠ sender then (h.queues p).deliver text else h.queues p := by
  rw [forward, queues_deliverAll h (hPeers.filter _)]
  simp

/-- What taking a peer out of its room leaves of the room. -/
def staying (h : Hub) (room : String) (peer : PeerId) : List PeerId :=
  (h.peers room).filter (· != peer)

/-- The hub without a peer in a room, which nobody has been told of yet. -/
def vacated (h : Hub) (room : String) (peer : PeerId) : Hub :=
  (h.updateQueue peer ({ · with closed := true })).withRoom room (h.staying room peer)

/-- A peer that leaves is taken out; if somebody stays, the rest is told, and otherwise the room is
left empty. -/
theorem beginLeave_eq (hMember : peer ∈ h.peers room) :
    h.beginLeave room peer = ((h.staying room peer).isEmpty,
      if (h.staying room peer).isEmpty then h.vacated room peer
      else (h.vacated room peer).announce room) := by
  unfold beginLeave
  cases hRoom : h.room? room with
  | none => simp [peers, hRoom] at hMember
  | some ps =>
      have hPeers : h.peers room = ps := by simp [peers, hRoom]
      have hContains : ps.contains peer = true := by simpa [hPeers] using hMember
      simp only [staying, hPeers, hContains, vacated, withRoom, if_true]

theorem peers_vacated (h : Hub) (room : String) (peer : PeerId) (r : String) :
    (h.vacated room peer).peers r = if r = room then h.staying room peer else h.peers r :=
  peers_withRoom ..

theorem rooms_beginLeave (hMember : peer ∈ h.peers room) :
    (h.beginLeave room peer).2.rooms = (h.vacated room peer).rooms := by
  rw [beginLeave_eq hMember]
  split
  · rfl
  · exact rooms_announce ..

theorem room?_beginLeave (hMember : peer ∈ h.peers room) (r : String) :
    (h.beginLeave room peer).2.room? r =
      if r = room then some (h.staying room peer) else h.room? r := by
  rw [room?_congr (rooms_beginLeave hMember)]
  exact room?_withRoom ..

/-- Leaving takes out that peer only. -/
theorem peers_beginLeave (hMember : peer ∈ h.peers room) (r : String) :
    (h.beginLeave room peer).2.peers r = if r = room then h.staying room peer else h.peers r := by
  rw [peers_congr (rooms_beginLeave hMember), peers_vacated]

/-- No room is listed twice when a peer leaves. -/
theorem DistinctRooms.beginLeave (hRooms : h.DistinctRooms) (hMember : peer ∈ h.peers room) :
    (h.beginLeave room peer).2.DistinctRooms := by
  rw [DistinctRooms, rooms_beginLeave hMember]
  exact DistinctRooms.withRoom (h := h.updateQueue peer ({ · with closed := true })) hRooms _ _

/-- Those who stay are told that the peer has left. -/
theorem queues_beginLeave (hMember : peer ∈ h.peers room) (hPeers : (h.peers room).Nodup)
    (p : PeerId) :
    (h.beginLeave room peer).2.queues p =
      if p = peer then { h.queues p with closed := true }
      else if p ∈ h.peers room then
        (h.queues p).deliver (announcement (h.staying room peer).length).text
      else h.queues p := by
  have hVacated : (h.vacated room peer).peers room = h.staying room peer := by
    rw [peers_vacated, if_pos rfl]
  have hDistinct : (h.staying room peer).Nodup := hPeers.filter _
  have hQueue : (h.vacated room peer).queues p =
      if p = peer then { h.queues p with closed := true } else h.queues p := rfl
  have hStays : p ∈ h.staying room peer ↔ p ∈ h.peers room ∧ p ≠ peer := by simp [staying]
  rw [beginLeave_eq hMember]
  by_cases hEmpty : (h.staying room peer).isEmpty
  · have hNobody : p ∉ h.staying room peer := by simp [List.isEmpty_iff.mp hEmpty]
    rw [if_pos hEmpty, hQueue]
    by_cases hSame : p = peer
    · simp [hSame]
    · have hAbsent : p ∉ h.peers room := fun hp => hNobody (hStays.mpr ⟨hp, hSame⟩)
      simp [hSame, hAbsent]
  · rw [if_neg hEmpty, queues_announce (hVacated ▸ hDistinct), hVacated, hQueue]
    by_cases hSame : p = peer
    · have hGone : peer ∉ h.staying room peer := by simp [staying]
      simp [hSame, hGone]
    · simp [hSame, hStays]

/-- The oldest text is received, and the others stay. -/
theorem receive?_eq_some (hReceive : h.receive? peer = some (text, h')) :
    ∃ rest, (h.queues peer).texts = text :: rest ∧
      h' = h.updateQueue peer ({ · with texts := rest }) := by
  unfold receive? at hReceive
  split at hReceive
  · cases hReceive
  · rename_i rest hTexts
    cases hReceive
    exact ⟨rest, hTexts, rfl⟩

end Hub

end RemoteSigning.Relay
