import RemoteSigning.Ceremony.Challenge
import RemoteSigning.Proofs.Ceremony.Envelopes
import RemoteSigning.Proofs.Ceremony.Options

/-!
# Challenges as messages and back

A challenge that was read from a message is written as a message that is read as the same challenge.
Nothing is asked of the first message but that it is read: its options may be written in any of the
forms that are accepted. What is written differs from it in the form of the options only, and in that
an expiry outside the calendar is gone.
-/

namespace RemoteSigning.Ceremony

open Json Time

/-- A kind is read from its own name only. -/
theorem Kind.ofName_eq_ok {name : String} {kind : Kind} :
    ofName name = .ok kind ↔ name = kind.name := by
  unfold ofName
  split
  · rename_i hName
    subst hName
    cases kind <;> decide
  · split
    · rename_i hName
      subst hName
      cases kind <;> decide
    · cases kind <;> simp_all

/-- Data to sign is read as what it is written for. -/
theorem SignData.decode_eq_ok (s : SignData String) (t : SignData Bytes) :
    s.decode = .ok t ↔ s = t.encode := by
  have hData (text : String) (bytes : Bytes) :
      (Base64.decodeStandard text).mapError (DecodeError.binary "signData.data") = .ok bytes ↔
        text = Base64.encodeStandard bytes := by
    rw [Except.mapError_eq_ok, Base64.decodeStandard_eq_ok]
  simp only [SignData.decode, Except.bind_eq_ok, decodeOption_eq_ok hData, Except.pure_eq_ok,
    Except.ok.injEq, Option.map_id']
  constructor
  · rintro ⟨data, hSame, rfl⟩
    cases s
    simp_all [encode]
  · rintro rfl
    exact ⟨t.data, rfl, rfl⟩

/-- Decoding options and encoding them again leaves them settled. -/
theorem CreationOptions.Settled.encode {o : CreationOptions String} {n : CreationOptions Bytes}
    (h : o.Settled) (hDecode : o.decode = .ok n) : n.encode.Settled := by
  rw [CreationOptions.decode_eq_ok] at hDecode
  rw [← hDecode]
  exact ⟨h.extensions, h.extra, h.algorithms⟩

theorem RequestOptions.Settled.encode {o : RequestOptions String} {n : RequestOptions Bytes}
    (h : o.Settled) (hDecode : o.decode = .ok n) : n.encode.Settled := by
  rw [RequestOptions.decode_eq_ok] at hDecode
  rw [← hDecode]
  exact ⟨h.extensions, h.extra⟩

/-- Options that were read from a value, in whatever form, are read from their own value again. -/
theorem Options.ofValue_toValue {kind : Kind} {v : Value} {o : Options}
    (h : ofValue kind v = .ok o) : o.kind = kind ∧ ofValue kind o.toValue = .ok o := by
  cases kind with
  | create =>
      simp only [ofValue, Except.bind_eq_ok, Except.mapError_eq_ok, Except.pure_eq_ok,
        Except.ok.injEq] at h
      obtain ⟨message, hRead, n, hDecode, rfl⟩ := h
      have hAgain := ((CreationOptions.settled_of_decoder hRead).encode hDecode).reads.2
      have hSame : n.encode.decode = .ok n :=
        (CreationOptions.decode_eq_ok _ _).mpr n.withoutPadding_encode
      refine ⟨rfl, ?_⟩
      simp only [ofValue, toValue, decodeValue, hAgain, Except.mapError_ok, Except.ok_bind, hSame,
        Except.pure_eq_ok]
  | get =>
      simp only [ofValue, Except.bind_eq_ok, Except.mapError_eq_ok, Except.pure_eq_ok,
        Except.ok.injEq] at h
      obtain ⟨message, hRead, n, hDecode, rfl⟩ := h
      have hAgain := ((RequestOptions.settled_of_decoder hRead).encode hDecode).reads.2
      have hSame : n.encode.decode = .ok n :=
        (RequestOptions.decode_eq_ok _ _).mpr n.withoutPadding_encode
      refine ⟨rfl, ?_⟩
      simp only [ofValue, toValue, decodeValue, hAgain, Except.mapError_ok, Except.ok_bind, hSame,
        Except.pure_eq_ok]

/-- A message is read as a challenge exactly if each of its parts is. -/
theorem ChallengeMessage.decode_eq_ok {id : String} {m : ChallengeMessage} {c : Challenge} :
    m.decode id = .ok c ↔
      c.id = id ∧ m.type = c.kind.name ∧ Options.ofValue c.kind m.publicKey = .ok c.options ∧
        m.app = c.app ∧ m.signData = c.signData.map (·.encode) ∧
        c.expiresAt = m.expire.bind Instant.ofSeconds? := by
  have hSignData : ∀ data : Option (SignData Bytes), decodeOption SignData.decode m.signData =
      .ok data ↔ m.signData = data.map (·.encode) := by
    intro data
    rw [decodeOption_eq_ok SignData.decode_eq_ok, Option.map_id']
  simp only [ChallengeMessage.decode, Except.bind_eq_ok, Kind.ofName_eq_ok, hSignData,
    Except.pure_eq_ok, Except.ok.injEq]
  constructor
  · rintro ⟨kind, hType, options, hOptions, data, hData, rfl⟩
    obtain ⟨rfl, -⟩ := Options.ofValue_toValue hOptions
    exact ⟨rfl, hType, hOptions, rfl, hData, rfl⟩
  · rintro ⟨rfl, hType, hOptions, hApp, hData, hExpiry⟩
    refine ⟨c.kind, hType, c.options, hOptions, c.signData, hData, ?_⟩
    rw [hApp, ← hExpiry]

/-- Only an expiry inside the calendar is kept. -/
theorem map_seconds_bind_ofSeconds? (expire : Option Int) :
    (expire.bind Instant.ofSeconds?).map (·.seconds) = expire.filter inCalendar := by
  cases expire with
  | none => rfl
  | some s =>
      simp only [Option.bind_some, Instant.ofSeconds?, Option.filter_some]
      split <;> rfl

/-- Seconds beyond the calendar are no instant, whether or not they are dropped before. -/
theorem filter_inCalendar_bind (expire : Option Int) :
    (expire.filter inCalendar).bind Instant.ofSeconds? = expire.bind Instant.ofSeconds? := by
  cases expire with
  | none => rfl
  | some s =>
      simp only [Option.filter_some, Option.bind_some, Instant.ofSeconds?]
      split <;> simp_all [Instant.ofSeconds?]

/-- A challenge that was read from any message is read again from what is written for it, and is the
same challenge. What is written has the type, the application and the data to sign of the message,
and its expiry if the calendar has it. -/
theorem Challenge.stable_on_wire (id : String) (m : ChallengeMessage) (c : Challenge)
    (h : m.decode id = .ok c) :
    c.encode.decode id = .ok c ∧
      c.encode.type = m.type ∧ c.encode.app = m.app ∧ c.encode.signData = m.signData ∧
      c.encode.expire = m.expire.filter inCalendar := by
  obtain ⟨hId, hType, hOptions, hApp, hData, hExpiry⟩ := ChallengeMessage.decode_eq_ok.mp h
  have hExpire : c.encode.expire = m.expire.filter inCalendar := by
    rw [Challenge.encode, hExpiry, map_seconds_bind_ofSeconds?]
  have hAgain : Options.ofValue c.kind c.options.toValue = .ok c.options :=
    (Options.ofValue_toValue hOptions).2
  refine ⟨ChallengeMessage.decode_eq_ok.mpr ?_, hType.symm, hApp.symm, hData.symm, hExpire⟩
  refine ⟨hId, rfl, hAgain, rfl, rfl, ?_⟩
  rw [hExpire, filter_inCalendar_bind, hExpiry]

/-- A message with its options in unusual forms: structures as arrays, `null` where a member may be
absent, padded binaries, members that are not declared, out of order and with names that sort between
declared ones, and an expiry outside the calendar. -/
def unusualMessage : ChallengeMessage where
  type := "webauthn.create"
  publicKey := .object
    [("zeta", .object [("b", .null), ("a", .integer 1)]),
     ("timeout", .null),
     ("user", .array [.string "AQI=", .null]),
     ("rp", .array [.null, .string "Example"]),
     ("hints", .array [.string "hybrid"]),
     ("pubKeyCredParams", .array [.array [.string "public-key", .integer (-7)]]),
     ("extensions", .object [("y", .bool true), ("x", .null)]),
     ("attestation", .object [("direct", .null)]),
     ("challenge", .string "_-8=")]
  signData := some { text := "sum", data := some "+/8=" }
  expire := some (10 ^ 18)

/-- What is read from it. -/
def unusualChallenge : Challenge where
  id := "c"
  options := .create
    { rp := some { name := some "Example" }
      user := some { id := [1, 2] }
      challenge := [255, 239]
      pubKeyCredParams := some [⟨"public-key", -7⟩]
      attestation := some .direct
      extensions := some (.object [("x", .null), ("y", .bool true)])
      extra := [("hints", .array [.string "hybrid"]),
        ("zeta", .object [("a", .integer 1), ("b", .null)])] }
  app := {}
  signData := some { text := "sum", data := some [251, 255] }
  expiresAt := none

/-- The unusual message is accepted, and it is the message written for it, not the unusual one
itself, that is read as the same challenge again. -/
theorem unusualChallenge_stable :
    unusualMessage.decode "c" = .ok unusualChallenge ∧
      unusualChallenge.encode.decode "c" = .ok unusualChallenge ∧
      unusualChallenge.encode ≠ unusualMessage := by
  have hRead : unusualMessage.decode "c" = .ok unusualChallenge := by decide +kernel
  refine ⟨hRead, (Challenge.stable_on_wire "c" unusualMessage unusualChallenge hRead).1, ?_⟩
  decide +kernel

end RemoteSigning.Ceremony
