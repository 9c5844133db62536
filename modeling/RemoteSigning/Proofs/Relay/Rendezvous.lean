import RemoteSigning.Proofs.Relay.Registry
import RemoteSigning.Proofs.Relay.Routing
import RemoteSigning.Proofs.Url.Reparsing
import RemoteSigning.Session.Room

/-!
# Devices find the same room

A device makes the URL of a room of the URL of a relay and the id of a challenge. The relay takes a
request for that URL to the room with the id as its name, whatever else the URL of the relay had. So
devices meet exactly if they have come for the same challenge.
-/

namespace RemoteSigning

/-- The port that a URL leads to. -/
def Url.effectivePort (u : Url) : Option Nat := u.port.or (impliedPort u.scheme)

namespace Relay

open Session Text Items

variable {base u : Url} {r : Request} {id : String}

/-- The schemes under which a relay is found. -/
def relaySchemes : List String := ["http", "https", "ws", "wss"]

/-- The scheme of a socket is of the same kind and has the same port. -/
theorem socketScheme_of_mem : ∀ scheme ∈ relaySchemes, Url.SchemeKind.of scheme = .special ∧
    Url.SchemeKind.of (socketScheme scheme) = .special ∧
    Url.impliedPort (socketScheme scheme) = Url.impliedPort scheme ∧
    socketScheme scheme = if scheme = "http" ∨ scheme = "ws" then "ws" else "wss" := by
  decide

/-- The path of the room for a challenge. -/
def roomNames (id : String) : List String := ["api", "v1", "remote", id]

/-- The names in the path of a room spell its path. -/
theorem text_roomNames (id : String) :
    (Url.Path.segments (roomNames id)).text = roomPath ++ id := by
  rw [← String.toList_inj, Url.toList_segmentsText, String.toList_append]
  exact congrArg (roomPath.toList ++ ·) (List.append_nil id.toList)

theorem isPath_roomNames (h : IsRoomId id) : Url.IsPath (roomNames id) := by
  have hFixed : ∀ name ∈ ["api", "v1", "remote"], 1 ≤ name.length ∧ name.length ≤ 128 ∧
      ∀ c ∈ name.toList, c.isAlphanum = true ∨ c = '-' ∨ c = '_' := by decide
  refine ⟨List.cons_ne_nil _ _, fun name hName => ?_⟩
  obtain hName | hName := List.mem_append.mp (show name ∈ ["api", "v1", "remote"] ++ [id] from hName)
  · obtain ⟨hSome, hShort, hCharacters⟩ := hFixed name hName
    exact IsRoomId.isSegment ⟨hSome, hShort, hCharacters⟩
  · exact List.mem_singleton.mp hName ▸ h.isSegment

/-- Nothing in the path of a room is dropped or ends it. -/
theorem plain_roomPath (h : IsRoomId id) :
    ∀ c ∈ (roomPath ++ id).toList, 0x20 < c.toNat ∧ Url.endsPath c = false := by
  rw [← text_roomNames]
  exact Url.plain_segmentsText (isPath_roomNames h).segments

/-- A port that is left out because it is implied is still the port that is led to. -/
theorem effectivePort_of_implied {scheme scheme' : String} {port : Option Nat}
    (h : Url.impliedPort scheme = Url.impliedPort scheme') :
    (port.filter (Url.impliedPort scheme ≠ some ·)).or (Url.impliedPort scheme) =
      port.or (Url.impliedPort scheme') := by
  rw [h]
  cases port with
  | none => rfl
  | some n =>
    rw [Option.filter_some]
    split_ifs with hOther
    · rfl
    · rw [decide_eq_true_eq, not_not] at hOther
      exact hOther

/-- The URL of a room has host and port of the relay and the path of the room, and nothing else. -/
theorem roomUrl_eq_ok (hBase : base.Settled) (hScheme : base.scheme ∈ relaySchemes)
    (hId : IsRoomId id) :
    ∃ u, roomUrl base id = .ok u ∧ u.scheme = socketScheme base.scheme ∧ u.host = base.host ∧
      u.effectivePort = base.effectivePort ∧ u.path = .segments (roomNames id) ∧
      u.query = none ∧ u.fragment = none := by
  obtain ⟨hKind, hSocket, hPort, -⟩ := socketScheme_of_mem _ hScheme
  obtain ⟨names, hPath, -⟩ := hBase.path
  have hRead := Url.pathOf_segmentsText (isPath_roomNames hId)
  rw [text_roomNames] at hRead
  have hSignificant := Url.significant_of_plain fun c hc => (plain_roomPath hId c hc).1
  have hSpecial : base.setSpecialScheme? (socketScheme base.scheme) =
      some { base with
        scheme := socketScheme base.scheme
        port := base.port.filter (Url.impliedPort (socketScheme base.scheme) ≠ some ·) } := by
    rw [Url.setSpecialScheme?, Url.kind, hKind, if_pos ⟨rfl, hBase.hasHost_eq⟩]
  simp only [roomUrl, hSpecial, Url.setPath, hPath, Url.kind, hSocket, hSignificant, hRead]
  exact ⟨_, rfl, rfl, rfl, effectivePort_of_implied hPort, rfl, rfl, rfl⟩

/-- Whether a request asks for the socket at a URL. -/
structure Request.Opens (r : Request) (u : Url) : Prop where
  target : r.target = u.path.text ++ u.query.elim "" ("?" ++ ·)
  socket : r.AsksForSocket

/-- Whether a request is that of a device for the room for a challenge, at a relay with some URL. -/
def Request.SeeksRoom (r : Request) (id : String) : Prop :=
  ∃ text base u, Url.parse text = .ok base ∧ base.scheme ∈ relaySchemes ∧
    roomUrl base id = .ok u ∧ r.Opens u

theorem settled_of_scheme {text : String} (hParse : Url.parse text = .ok base)
    (hScheme : base.scheme ∈ relaySchemes) : base.Settled :=
  Url.settled_of_parse hParse (socketScheme_of_mem _ hScheme).1

/-- A request that opens the address of a room asks for its path. -/
theorem path_of_opens (hPath : u.path = .segments (roomNames id)) (hQuery : u.query = none)
    (hId : IsRoomId id) (h : r.Opens u) : r.path = roomRoute ++ id := by
  have hTarget : r.target = roomPath ++ id := by
    rw [h.target, hPath, hQuery, text_roomNames]
    exact String.append_empty
  have hInside : ∀ c ∈ (roomPath ++ id).toList, (c != '?' && c != '#') = true := by
    intro c hc
    have hEnds := (plain_roomPath hId c hc).2
    rw [Url.endsPath, Bool.or_eq_false_iff] at hEnds
    rw [bne, bne, hEnds.1, hEnds.2]
    rfl
  rw [Request.path, hTarget, List.takeWhile_eq_self_iff.mpr hInside, String.ofList_toList]
  rfl

/-- A request for the room for a challenge is taken to the room with that name, and nothing is said
against it. -/
theorem requestedRoom_of_seeksRoom (hId : IsRoomId id) (h : r.SeeksRoom id) :
    Route.ofPath r.path = .room id ∧ requestedRoom id r = .ok id := by
  obtain ⟨text, base, u, hParse, hScheme, hUrl, hOpens⟩ := h
  obtain ⟨u', hUrl', -, -, -, hPath, hQuery, -⟩ :=
    roomUrl_eq_ok (settled_of_scheme hParse hScheme) hScheme hId
  obtain rfl := Except.ok.inj (hUrl.symm.trans hUrl')
  have hSome : id ≠ "" := by
    rintro rfl
    exact absurd hId.nonempty (by decide)
  have hWhole : '/' ∉ id.toList := fun hMem => absurd (hId.plain hMem).2.1 (by decide)
  refine ⟨?_, requestedRoom_eq_ok_iff.mpr ⟨hId.decode_octets, hId, hOpens.socket.checkUpgrade_eq⟩⟩
  rw [path_of_opens hPath hQuery hId hOpens, ofPath_roomRoute hSome hWhole]

/-- Whoever seeks a room joins it. -/
theorem joinedRoom?_of_seeksRoom (hId : IsRoomId id) (h : r.SeeksRoom id) :
    joinedRoom? r = some id :=
  joinedRoom?_eq_some_iff.mpr ⟨id, requestedRoom_of_seeksRoom hId h⟩

/-- All that is missing is a connection that can become a socket. -/
theorem respond_of_seeksRoom (hId : IsRoomId id) (h : r.SeeksRoom id) (rooms : Nat) :
    (Route.ofPath r.path).respond rooms r = noSocketResponse := by
  obtain ⟨hRoute, hRequested⟩ := requestedRoom_of_seeksRoom hId h
  obtain ⟨_, _, _, -, -, -, hOpens⟩ := h
  have hTakes : takesMethod r.method = true := by
    rw [hOpens.socket.method]
    rfl
  simp only [hRoute, Route.respond, hTakes, hRequested, Bool.not_true, Bool.false_eq_true, if_false]

/-- Whether a peer joins a room only as the router has taken its request to be. -/
def Visit.Admitted (asks : PeerId → Request) : Visit → Prop
  | .join room peer => joinedRoom? (asks peer) = some room
  | _ => True

namespace Registry

variable {asks : PeerId → Request} {g g' : Registry} {v : Visit} {p q peer : PeerId} {room : String}
  {s : Stay}

/-- Whether every peer is in the room that it has asked for, and rooms have names that they may
have. -/
structure Orderly (asks : PeerId → Request) (g : Registry) : Prop where
  sound : g.Sound
  asked : ∀ p room, g.stay p = .inside room → joinedRoom? (asks p) = some room
  named : ∀ room, (g.hub.room? room).isSome → IsRoomId room

/-- At first nobody is where it has not asked to be. -/
theorem orderly_initial (asks : PeerId → Request) : initial.Orderly asks :=
  ⟨sound_initial, by simp [initial], by simp [initial, Hub.room?]⟩

/-- Who is inside after another one has moved on has been so before. -/
theorem inside_of_settle (hs : ∀ r, s ≠ .inside r)
    (h : (g.settle peer s).stay p = .inside room) : g.stay p = .inside room := by
  rw [stay_settle] at h
  split_ifs at h with hSame
  · exact absurd h (hs room)
  · exact h

/-- Visits that were admitted keep it so. -/
theorem Orderly.step (h : g.Orderly asks) (hStep : Step g v g') (hAdmitted : v.Admitted asks) :
    g'.Orderly asks := by
  refine ⟨h.sound.step hStep, ?asked, ?named⟩
  case asked =>
    intro p room hInside
    cases hStep with
    | idle | queued => exact h.asked p room hInside
    | @joined room' peer hub outside taken =>
      rw [stay_settle] at hInside
      split_ifs at hInside with hSame
      · exact Stay.inside.inj hInside ▸ hSame ▸ hAdmitted
      · exact h.asked p room hInside
    | refused => exact h.asked p room (inside_of_settle (fun _ => Stay.noConfusion) hInside)
    | left =>
      refine h.asked p room (inside_of_settle (fun r => ?_) hInside)
      split_ifs <;> exact Stay.noConfusion
    | cleared => exact h.asked p room (inside_of_settle (fun _ => Stay.noConfusion) hInside)
  case named =>
    intro r hSome
    cases hStep with
    | idle | refused => exact h.named r hSome
    | queued _ rooms =>
      rw [Hub.room?_congr rooms] at hSome
      exact h.named r hSome
    | joined _ taken =>
      rw [hub_settle, Hub.room?_of_join? taken] at hSome
      split_ifs at hSome with hSame
      · exact hSame ▸ isRoomId_of_joinedRoom? hAdmitted
      · exact h.named r hSome
    | left inside =>
      rw [hub_settle, Hub.room?_beginLeave ((h.sound.inside _ _).mpr inside)] at hSome
      split_ifs at hSome with hSame
      · exact hSame ▸ isRoomId_of_joinedRoom? (h.asked _ _ inside)
      · exact h.named r hSome
    | cleared =>
      rw [hub_settle, Hub.room?_endLeave h.sound.rooms] at hSome
      split_ifs at hSome
      · cases hSome
      · exact h.named r hSome

theorem Orderly.run (h : g.Orderly asks) {visits : List Visit}
    (hAdmitted : ∀ v ∈ visits, v.Admitted asks) : (g.run visits).Orderly asks := by
  induction visits generalizing g with
  | nil => exact h
  | cons v visits ih =>
    rw [List.forall_mem_cons] at hAdmitted
    exact ih (h.step (step_step g v) hAdmitted.1) hAdmitted.2

/-- Whether a peer is in some room. -/
def IsPresent (g : Registry) (p : PeerId) : Prop := ∃ room, p ∈ g.hub.peers room

/-- Whether two peers are in one room. -/
def Together (g : Registry) (p q : PeerId) : Prop :=
  ∃ room, p ∈ g.hub.peers room ∧ q ∈ g.hub.peers room

/-- Peers that have asked for rooms by their names are together exactly if the names are the same. -/
theorem Orderly.together_iff (h : g.Orderly asks) {id id' : String}
    (hp : joinedRoom? (asks p) = some id) (hq : joinedRoom? (asks q) = some id') :
    g.Together p q ↔ g.IsPresent p ∧ g.IsPresent q ∧ id = id' := by
  have hRoom {p : PeerId} {id room : String} (hAsked : joinedRoom? (asks p) = some id)
      (hMem : p ∈ g.hub.peers room) : room = id :=
    Option.some.inj ((h.asked p room ((h.sound.inside p room).mp hMem)).symm.trans hAsked)
  constructor
  · rintro ⟨room, hMem, hMem'⟩
    exact ⟨⟨room, hMem⟩, ⟨room, hMem'⟩, (hRoom hp hMem).symm.trans (hRoom hq hMem')⟩
  · rintro ⟨⟨room, hMem⟩, ⟨room', hMem'⟩, rfl⟩
    obtain rfl := hRoom hp hMem
    obtain rfl := hRoom hq hMem'
    exact ⟨_, hMem, hMem'⟩

/-- Who comes to a room that is not full is let in, and nobody else moves. -/
theorem step_join (hOutside : g.stay peer = .outside)
    (hFree : (g.hub.peers room).length < roomCapacity) :
    (g.step (.join room peer)).hub.peers room = g.hub.peers room ++ [peer] ∧
      ∀ p, p ≠ peer → (g.step (.join room peer)).stay p = g.stay p := by
  cases hTaken : g.hub.join? room peer with
  | none => exact absurd (Hub.join?_eq_none.mp hTaken) (Nat.not_le.mpr hFree)
  | some hub =>
    simp only [step, hOutside, hTaken]
    refine ⟨?_, fun p hp => ?_⟩
    · rw [hub_settle, Hub.peers_of_join? hTaken, if_pos rfl]
    · rw [stay_settle, if_neg hp]

/-- Two peers that come to an empty room are together there. -/
theorem together_join (hNe : p ≠ q) (hp : g.stay p = .outside) (hq : g.stay q = .outside)
    (hEmpty : g.hub.peers room = []) : (g.run [.join room p, .join room q]).Together p q := by
  have hFree : (g.hub.peers room).length < roomCapacity := by
    rw [hEmpty]
    exact Nat.zero_lt_two
  obtain ⟨hFirst, hOthers⟩ := step_join hp hFree
  have hq' : (g.step (.join room p)).stay q = .outside := (hOthers q hNe.symm).trans hq
  have hFree' : ((g.step (.join room p)).hub.peers room).length < roomCapacity := by
    rw [hFirst, hEmpty]
    exact Nat.lt_succ_self 1
  have hSecond := (step_join hq' hFree').1
  refine ⟨room, ?_, ?_⟩ <;> rw [run_cons, run_cons, run_nil, hSecond, hFirst]
  · exact List.mem_append_left _ (List.mem_append_right _ (List.mem_singleton_self p))
  · exact List.mem_append_right _ (List.mem_singleton_self q)

end Registry

/-- At every relay of the web or of sockets, the URL of the room for a challenge leads to the place
where the relay is and to the room with the id of the challenge as its name, which a request for a
socket there joins. After any visits that have come through the router, two devices that seek the
rooms for challenges are in one room exactly if both are in a room and the challenges have the same
id; in a free room they do meet; and every room that is listed has a name that rooms may have. -/
theorem devices_and_relay_agree_on_rooms :
    (∀ text base id, Url.parse text = .ok base → base.scheme ∈ ["http", "https", "ws", "wss"] →
      checkRoomId id = .ok () →
      ∃ u, roomUrl base id = .ok u ∧ u.host = base.host ∧ u.effectivePort = base.effectivePort ∧
        (u.scheme = if base.scheme = "http" ∨ base.scheme = "ws" then "ws" else "wss") ∧
        u.path.text = "/api/v1/remote/" ++ id ∧ u.query = none ∧ u.fragment = none ∧
        ∀ r : Request, r.Opens u → joinedRoom? r = some id ∧
          ∀ rooms, (Route.ofPath r.path).respond rooms r = noSocketResponse) ∧
    ∀ (asks : PeerId → Request) (visits : List Visit), (∀ v ∈ visits, v.Admitted asks) →
      let g := Registry.initial.run visits
      (∀ p q id id', checkRoomId id = .ok () → checkRoomId id' = .ok () →
        (asks p).SeeksRoom id → (asks q).SeeksRoom id' →
        (g.Together p q ↔ g.IsPresent p ∧ g.IsPresent q ∧ id = id') ∧
        (p ≠ q → g.stay p = .outside → g.stay q = .outside → g.hub.peers id = [] → id = id' →
          (∀ v ∈ [Visit.join id p, .join id q], v.Admitted asks) ∧
          (g.run [.join id p, .join id q]).Together p q)) ∧
      ∀ room ∈ g.hub.rooms, 1 ≤ room.1.length ∧ room.1.length ≤ 128 ∧
        ∀ c ∈ room.1.toList, c.isAlphanum = true ∨ c = '-' ∨ c = '_' := by
  refine ⟨fun text base id hParse hScheme hChecked => ?_, fun asks visits hAdmitted => ?_⟩
  · have hId := checkRoomId_eq_ok_iff.mp hChecked
    obtain ⟨u, hUrl, hSocket, hHost, hPort, hPath, hQuery, hFragment⟩ :=
      roomUrl_eq_ok (settled_of_scheme hParse hScheme) hScheme hId
    refine ⟨u, hUrl, hHost, hPort, ?_, ?_, hQuery, hFragment, fun r hOpens => ?_⟩
    · exact hSocket.trans (socketScheme_of_mem _ hScheme).2.2.2
    · rw [hPath, text_roomNames]
      rfl
    · have hSeeks : r.SeeksRoom id := ⟨text, base, u, hParse, hScheme, hUrl, hOpens⟩
      exact ⟨joinedRoom?_of_seeksRoom hId hSeeks, respond_of_seeksRoom hId hSeeks⟩
  · have h := (Registry.orderly_initial asks).run hAdmitted
    refine ⟨fun p q id id' hChecked hChecked' hp hq => ?_, fun room hRoom => ?_⟩
    · have hp' := joinedRoom?_of_seeksRoom (checkRoomId_eq_ok_iff.mp hChecked) hp
      have hq' := joinedRoom?_of_seeksRoom (checkRoomId_eq_ok_iff.mp hChecked') hq
      refine ⟨h.together_iff hp' hq', fun hNe hOutside hOutside' hEmpty hSame => ?_⟩
      subst hSame
      refine ⟨?_, Registry.together_join hNe hOutside hOutside' hEmpty⟩
      rw [List.forall_mem_cons, List.forall_mem_singleton]
      exact ⟨hp', hq'⟩
    · have hListed : ((Registry.initial.run visits).hub.room? room.1).isSome := by
        rw [Hub.room?, List.lookup_isSome_iff]
        exact ⟨room, hRoom, beq_self_eq_true _⟩
      have hId := h.named _ hListed
      exact ⟨hId.nonempty, hId.short, hId.characters⟩

/-- The URL of a relay with a port, a path, a query and a fragment. -/
def crowdedRelay : Url :=
  { scheme := "https"
    host := some (.domain "relay.example")
    port := some 8443
    path := .segments ["base"]
    query := some "x=1"
    fragment := some "top" }

/-- What a device sends to open the socket of a room. -/
def handshake (target : String) : Request :=
  { method := "GET"
    target
    headers :=
      [("host", "relay.example:8443"), ("connection", "Upgrade"), ("upgrade", "websocket"),
        ("sec-websocket-version", "13"), ("sec-websocket-key", "dGhlIHNhbXBsZSBub25jZQ==")] }

/-- The handshake of a device asks for a socket. -/
theorem handshake_asksForSocket (target : String) : (handshake target).AsksForSocket where
  method := rfl
  connection := ⟨"", "Upgrade", "", rfl, sameButCase_iff.mpr (by decide)⟩
  upgrade := ⟨"websocket", rfl, sameButCase_iff.mpr rfl⟩
  version := rfl
  key := ⟨_, rfl⟩

/-- Two devices meet at that relay. -/
theorem devices_meet_at_crowdedRelay :
    Url.parse "https://relay.example:8443/base?x=1#top" = .ok crowdedRelay ∧
      (∃ u, roomUrl crowdedRelay "challenge_42" = .ok u ∧ u.effectivePort = some 8443 ∧
        u.scheme = "wss" ∧ u.path.text = "/api/v1/remote/challenge_42") ∧
      joinedRoom? (handshake "/api/v1/remote/challenge_42") = some "challenge_42" ∧
      (Registry.initial.run [.join "challenge_42" 0, .join "challenge_42" 1]).Together 0 1 := by
  have hParse : Url.parse "https://relay.example:8443/base?x=1#top" = .ok crowdedRelay := by
    decide +kernel
  have hChecked : checkRoomId "challenge_42" = .ok () := by rfl
  obtain ⟨hUrls, hRuns⟩ := devices_and_relay_agree_on_rooms
  obtain ⟨u, hUrl, -, hPort, hScheme, hPath, hQuery, -, hJoins⟩ :=
    hUrls _ _ "challenge_42" hParse (by decide) hChecked
  have hOpens : (handshake "/api/v1/remote/challenge_42").Opens u :=
    ⟨by rw [hPath, hQuery]; rfl, handshake_asksForSocket _⟩
  have hSeeks : (handshake "/api/v1/remote/challenge_42").SeeksRoom "challenge_42" :=
    ⟨_, _, u, hParse, by decide, hUrl, hOpens⟩
  obtain ⟨hMeet, -⟩ := hRuns (fun _ => handshake "/api/v1/remote/challenge_42") [] (by simp)
  refine ⟨hParse, ⟨u, hUrl, hPort, hScheme, hPath⟩, (hJoins _ hOpens).1, ?_⟩
  exact ((hMeet 0 1 _ _ hChecked hChecked hSeeks hSeeks).2 (by decide) rfl rfl rfl rfl).2

end Relay

end RemoteSigning
