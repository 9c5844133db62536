import RemoteSigning.Proofs.Results
import RemoteSigning.Proofs.Url.Paths
import RemoteSigning.Relay.Router

/-!
# Requests for rooms

A request joins a room exactly if its path has the name of the room behind the route of rooms, the
name is one that rooms may have, and the headers ask for a socket.
-/

namespace RemoteSigning.Relay

open Text Items

variable {r : Request} {id segment : String} {c : Char}

/-- Whether a text may name a room. -/
structure IsRoomId (id : String) : Prop where
  nonempty : 1 ≤ id.length
  short : id.length ≤ 128
  characters : ∀ c ∈ id.toList, c.isAlphanum = true ∨ c = '-' ∨ c = '_'

/-- The characters of the name of a room. -/
theorem isRoomIdCharacter_iff :
    isRoomIdCharacter c = true ↔ c.isAlphanum = true ∨ c = '-' ∨ c = '_' := by
  simp only [isRoomIdCharacter, Bool.or_eq_true, beq_iff_eq, or_assoc]

theorem toNat_lt_of_isRoomIdCharacter (h : isRoomIdCharacter c = true) : c.toNat < 0x80 := by
  have hUpTo (high : Char) (hHigh : high.toNat < 0x80) (hLe : c.val ≤ high.val) : c.toNat < 0x80 :=
    Nat.lt_of_le_of_lt (UInt32.le_iff_toNat_le.mp hLe) hHigh
  obtain hAlphanum | rfl | rfl := isRoomIdCharacter_iff.mp h
  · obtain hAlpha | hDigit := Bool.or_eq_true_iff.mp hAlphanum
    · obtain hUpper | hLower := Bool.or_eq_true_iff.mp hAlpha
      · exact hUpTo 'Z' (by decide) (of_decide_eq_true hUpper).2
      · exact hUpTo 'z' (by decide) (of_decide_eq_true (Bool.and_eq_true_iff.mp hLower).2)
    · exact hUpTo '9' (by decide) (of_decide_eq_true (Bool.and_eq_true_iff.mp hDigit).2)
  · decide
  · decide

theorem IsRoomId.toNat_lt (h : IsRoomId id) (hc : c ∈ id.toList) : c.toNat < 0x80 :=
  toNat_lt_of_isRoomIdCharacter (isRoomIdCharacter_iff.mpr (h.characters c hc))

/-- Only the names of rooms pass the check. -/
theorem checkRoomId_eq_ok_iff : checkRoomId id = .ok () ↔ IsRoomId id := by
  unfold checkRoomId
  rw [Except.ite_error_eq_ok, not_or, Nat.not_lt, longestRoomId]
  constructor
  · rintro ⟨⟨hSome, hShort⟩, hChecked⟩
    split_ifs at hChecked with hAll
    have hCharacters := List.all_eq_true.mp hAll
    have hLength := length_octets fun c hc => toNat_lt_of_isRoomIdCharacter (hCharacters c hc)
    rw [hLength] at hSome hShort
    exact ⟨Nat.one_le_iff_ne_zero.mpr hSome, hShort, fun c hc =>
      isRoomIdCharacter_iff.mp (hCharacters c hc)⟩
  · intro h
    have hAll : id.toList.all isRoomIdCharacter = true :=
      List.all_eq_true.mpr fun c hc => isRoomIdCharacter_iff.mpr (h.characters c hc)
    rw [length_octets fun c => h.toNat_lt, if_pos hAll]
    exact ⟨⟨Nat.one_le_iff_ne_zero.mp h.nonempty, h.short⟩, rfl⟩

/-- What may stand in the name of a room stands for itself in a path, and takes part neither in
escapes nor in names of directories. -/
theorem plain_of_isRoomIdCharacter : ∀ n < 0x80, isRoomIdCharacter (Char.ofNat n) = true →
    Url.Percent.inPath.Keeps (Char.ofNat n) ∧ Url.isSlash .special (Char.ofNat n) = false ∧
      (Char.ofNat n).toLower ∉ ['.', '%'] := by
  decide +kernel

/-- The characters of such a name are kept as they are in a path. -/
theorem IsRoomId.plain (h : IsRoomId id) (hc : c ∈ id.toList) :
    Url.Percent.inPath.Keeps c ∧ Url.isSlash .special c = false ∧ c.toLower ∉ ['.', '%'] := by
  have hPlain := plain_of_isRoomIdCharacter c.toNat (h.toNat_lt hc)
  rw [Char.ofNat_toNat] at hPlain
  exact hPlain (isRoomIdCharacter_iff.mpr (h.characters c hc))

/-- The name of a room is a segment of a path. -/
theorem IsRoomId.isSegment (h : IsRoomId id) : Url.IsSegment id := by
  refine ⟨fun c hc => (h.plain hc).1, fun c hc => (h.plain hc).2.1, fun hDots => ?_⟩
  have hForms : ∀ form ∈ Url.dotForms, ¬ ∀ c ∈ form, c ∉ ['.', '%'] := by decide
  refine hForms _ (Url.isDots_iff.mp hDots) fun sign hSign => ?_
  obtain ⟨c, hc, rfl⟩ := List.mem_map.mp hSign
  exact (h.plain hc).2.2

/-- Nothing is escaped in the name of a room. -/
theorem IsRoomId.decode_octets (h : IsRoomId id) :
    ofOctets? (Url.Percent.decode (octets id)) = some id := by
  have hPercent : UInt8.ofNat '%'.toNat ∉ id.toList.flatMap charOctets := by
    refine octet_notMem (by decide) fun c hc => ⟨h.toNat_lt hc, ?_⟩
    rintro rfl
    exact absurd (h.plain hc).2.2 (by decide)
  rw [octets, Url.Percent.decode_of_notMem hPercent, ofOctets?_flatMap, String.ofList_toList]

/-- What follows the route of rooms is the name of a room, if it is whole. -/
theorem roomSegment?_append (hSome : segment ≠ "") (hWhole : '/' ∉ segment.toList) :
    roomSegment? (roomRoute ++ segment) = some segment := by
  have hChars : segment.toList.isEmpty = false := by
    rw [List.isEmpty_eq_false_iff]
    exact fun hNone => hSome (String.toList_eq_nil_iff.mp hNone)
  have hPrefix : roomRoute.toList.isPrefixOf (roomRoute.toList ++ segment.toList) = true :=
    List.isPrefixOf_iff_prefix.mpr (List.prefix_append ..)
  have hContains : segment.toList.contains '/' = false := by
    rw [Bool.eq_false_iff, ne_eq, List.contains_iff_mem]
    exact hWhole
  simp only [roomSegment?, String.toList_append, hPrefix, if_true, List.drop_left, hChars, hContains,
    Bool.or_false, Bool.false_eq_true, if_false, String.ofList_toList]

theorem ofPath_roomRoute (hSome : segment ≠ "") (hWhole : '/' ∉ segment.toList) :
    Route.ofPath (roomRoute ++ segment) = .room segment := by
  have hOther (path : String) (hPath : path.toList.take 4 ≠ roomRoute.toList.take 4) :
      roomRoute ++ segment ≠ path := by
    rintro rfl
    rw [String.toList_append, List.take_append_of_le_length (by decide)] at hPath
    exact hPath rfl
  rw [Route.ofPath, if_neg (hOther "/health" (by decide)), if_neg (hOther "/ready" (by decide)),
    roomSegment?_append hSome hWhole]

/-- Whether a request asks for a socket: its fields name the protocol and its version, in whatever
case, and among the options of the connection is the upgrade. -/
structure Request.AsksForSocket (r : Request) : Prop where
  method : r.method = "GET"
  connection : ∃ before option after,
    r.header? "connection" = some (before ++ option ++ after) ∧ sameButCase "upgrade" option = true
  upgrade : ∃ protocol,
    r.header? "upgrade" = some protocol ∧ sameButCase "websocket" protocol = true
  version : r.header? "sec-websocket-version" = some "13"
  key : ∃ key, r.header? "sec-websocket-key" = some key

/-- Comparing texts but for case is comparing them in lower case. -/
theorem sameButCase_iff {a b : String} :
    sameButCase a b = true ↔ a.toList.map Char.toLower = b.toList.map Char.toLower := by
  rw [sameButCase, beq_iff_eq, ← String.toList_inj, String.toList_map, String.toList_map]

/-- A part is found anywhere in a text, in whatever case. -/
theorem occursButCase_append {part found : String} (h : sameButCase part found = true)
    (before after : String) : occursButCase part (before ++ found ++ after) = true := by
  rw [occursButCase, occurs_iff, String.toList_map, String.toList_map, sameButCase_iff.mp h]
  refine ⟨before.toList.map Char.toLower, after.toList.map Char.toLower, ?_⟩
  simp only [String.toList_append, List.map_append]

/-- A request that asks for a socket passes the check. -/
theorem Request.AsksForSocket.checkUpgrade_eq (h : r.AsksForSocket) : checkUpgrade r = .ok () := by
  obtain ⟨before, option, after, hConnection, hOption⟩ := h.connection
  obtain ⟨protocol, hUpgrade, hProtocol⟩ := h.upgrade
  obtain ⟨key, hKey⟩ := h.key
  have hOccurs := occursButCase_append hOption before after
  have hVersion : sameButCase "13" "13" = true := beq_self_eq_true _
  simp only [checkUpgrade, h.method, hConnection, hUpgrade, hKey, h.version, Option.any_some, hOccurs,
    hProtocol, hVersion, ne_eq, not_true_eq_false, if_false, Bool.not_true, Bool.false_eq_true,
    Option.isNone_some]
  rfl

/-- A room is requested by its decoded name, if it is one, and with a request for a socket. -/
theorem requestedRoom_eq_ok_iff :
    requestedRoom segment r = .ok id ↔
      ofOctets? (Url.Percent.decode (octets segment)) = some id ∧ IsRoomId id ∧
        checkUpgrade r = .ok () := by
  rw [requestedRoom]
  cases hText : ofOctets? (Url.Percent.decode (octets segment)) with
  | none => simp
  | some text =>
    simp only [Except.bind_eq_ok, Except.mapError_eq_ok, Option.some.injEq]
    constructor
    · rintro ⟨⟨⟩, hId, ⟨⟩, hUpgrade, hSame⟩
      exact ⟨Except.ok.inj hSame, Except.ok.inj hSame ▸ checkRoomId_eq_ok_iff.mp hId, hUpgrade⟩
    · rintro ⟨rfl, hId, hUpgrade⟩
      exact ⟨(), checkRoomId_eq_ok_iff.mpr hId, (), hUpgrade, rfl⟩

/-- What a request has to be to join a room. -/
theorem joinedRoom?_eq_some_iff :
    joinedRoom? r = some id ↔
      ∃ segment, Route.ofPath r.path = .room segment ∧ requestedRoom segment r = .ok id := by
  rw [joinedRoom?]
  cases hRoute : Route.ofPath r.path with
  | health | ready | nowhere => simp
  | room segment =>
    simp only [Route.room.injEq, exists_eq_left']
    cases requestedRoom segment r <;> simp [Except.toOption]

/-- Only rooms with such names are joined. -/
theorem isRoomId_of_joinedRoom? (h : joinedRoom? r = some id) : IsRoomId id := by
  obtain ⟨segment, -, hRequested⟩ := joinedRoom?_eq_some_iff.mp h
  exact (requestedRoom_eq_ok_iff.mp hRequested).2.1

end RemoteSigning.Relay
