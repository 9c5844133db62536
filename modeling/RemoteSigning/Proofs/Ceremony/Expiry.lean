import RemoteSigning.Proofs.Ceremony.Challenges
import RemoteSigning.Proofs.Time.Instants

/-!
# When a challenge is expired

A message gives the second in which its challenge expires. From that second on the challenge is
expired, and it stays so, provided that the calendar has begun by then. A second before the calendar
is dropped like one after its end. After the end nothing is lost, since no instant comes so late.
Before the beginning the challenge is taken for one that never expires.
-/

namespace RemoteSigning.Ceremony

open Time

variable {id : String} {m : ChallengeMessage} {c : Challenge} {e : Int} {now later : Instant}

theorem Challenge.isExpired_iff : c.isExpired now ↔ ∃ t, c.expiresAt = some t ∧ t.le now := by
  rw [isExpired]
  cases c.expiresAt with
  | none => simp
  | some t => simp

/-- What is expired stays so. -/
theorem Challenge.isExpired_of_le (h : c.isExpired now) (hLater : now.le later) :
    c.isExpired later := by
  obtain ⟨t, hExpiry, hReached⟩ := isExpired_iff.mp h
  exact isExpired_iff.mpr ⟨t, hExpiry, Instant.le_trans hReached hLater⟩

/-- An expiry counts if the calendar has it. -/
theorem Challenge.isExpired_of_decode (hRead : m.decode id = .ok c) (hExpire : m.expire = some e) :
    c.isExpired now ↔ inCalendar e ∧ e ≤ now.seconds := by
  obtain ⟨-, -, -, -, -, hExpiry⟩ := ChallengeMessage.decode_eq_ok.mp hRead
  rw [hExpire, Option.bind_some] at hExpiry
  rw [isExpired_iff, hExpiry]
  constructor
  · rintro ⟨t, hStart, hReached⟩
    obtain ⟨hCalendar, rfl⟩ := Instant.ofSeconds?_eq_some.mp hStart
    exact ⟨hCalendar, Instant.start_le_iff.mp hReached⟩
  · rintro ⟨hCalendar, hReached⟩
    exact ⟨⟨e, 0⟩, Instant.ofSeconds?_eq_some.mpr ⟨hCalendar, rfl⟩, Instant.start_le_iff.mpr hReached⟩

/-- Of a challenge whose message gives an expiry, at every instant of the calendar: it is expired
exactly if the expiry has come and does not lie before the calendar. So the expiry is heeded at all
instants exactly if it does not lie before the calendar; if it does, the challenge never expires. What
is expired stays so in any case. -/
theorem Challenge.expiry_heeded_iff (hRead : m.decode id = .ok c) (hExpire : m.expire = some e) :
    (∀ now : Instant, inCalendar now.seconds →
      (c.isExpired now ↔ firstSecond ≤ e ∧ e ≤ now.seconds)) ∧
    ((∀ now : Instant, inCalendar now.seconds → (c.isExpired now ↔ e ≤ now.seconds)) ↔
      firstSecond ≤ e) ∧
    (e < firstSecond → ∀ now, ¬c.isExpired now) ∧
    ∀ now later : Instant, now.le later → c.isExpired now → c.isExpired later := by
  have hExact (now : Instant) (hNow : inCalendar now.seconds) :
      c.isExpired now ↔ firstSecond ≤ e ∧ e ≤ now.seconds := by
    rw [isExpired_of_decode hRead hExpire, inCalendar_iff]
    constructor
    · rintro ⟨⟨hBegun, -⟩, hReached⟩
      exact ⟨hBegun, hReached⟩
    · rintro ⟨hBegun, hReached⟩
      -- An expiry that has come is not after the end of the calendar.
      exact ⟨⟨hBegun, Int.le_trans hReached (inCalendar_iff.mp hNow).2⟩, hReached⟩
  refine ⟨hExact, ⟨fun hHeeded => ?_, fun hBegun now hNow => ?_⟩, ?_, ?_⟩
  · by_contra hBefore
    have hReached : e ≤ firstSecond := by omega
    have hFirst : inCalendar firstSecond := by decide
    have hExpired : c.isExpired ⟨firstSecond, 0⟩ := (hHeeded ⟨firstSecond, 0⟩ hFirst).mpr hReached
    exact hBefore ((hExact ⟨firstSecond, 0⟩ hFirst).mp hExpired).1
  · rw [hExact now hNow, and_iff_right hBegun]
  · intro hBefore now hExpired
    have hCalendar := ((isExpired_of_decode hRead hExpire).mp hExpired).1
    have hBegun := (inCalendar_iff.mp hCalendar).1
    omega
  · exact fun now later hLater hExpired => isExpired_of_le hExpired hLater

/-- A request for an assertion that expires at a second. -/
def expiringMessage (e : Int) : ChallengeMessage where
  type := "webauthn.get"
  publicKey := .object [("challenge", .string "AAEC")]
  expire := some e

/-- What is read from it if the calendar does not have the second. -/
def timelessChallenge : Challenge where
  id := "c"
  options := .get { challenge := [0, 1, 2] }
  app := {}
  signData := none
  expiresAt := none

/-- The lowest expiry that a message can give has long come, and the challenge never expires. -/
theorem ancientChallenge_never_expires :
    (expiringMessage (-2 ^ 63)).decode "c" = .ok timelessChallenge ∧
      (∀ now : Instant, inCalendar now.seconds → -2 ^ 63 ≤ now.seconds) ∧
      ∀ now, ¬timelessChallenge.isExpired now := by
  have hRead : (expiringMessage (-2 ^ 63)).decode "c" = .ok timelessChallenge := by decide +kernel
  have hBefore : -2 ^ 63 < firstSecond := by decide
  refine ⟨hRead, fun now hNow => ?_, (Challenge.expiry_heeded_iff hRead rfl).2.2.1 hBefore⟩
  have hBegun := (inCalendar_iff.mp hNow).1
  omega

end RemoteSigning.Ceremony
