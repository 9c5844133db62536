import RemoteSigning.Proofs.Base64.Spelling
import RemoteSigning.Proofs.Ceremony.Refusals

/-!
# Binary members have one text

Octets are read from their own text and from no other, up to padding where it is passed over. So two
texts are read alike only if they differ in padding, and any other text is refused by the name of its
member. What the own text of octets is, is said by its bits.
-/

namespace RemoteSigning.Ceremony

open Base64 (DifferInPadding IsUrlText Spells encodeStandard encodeUrl padded standardSymbols
  unpadded urlSafeSymbols)

variable {field field' text text' : String}

/-- A binary member is read exactly if it is base64 but for padding. -/
theorem decodeBinary_isOk_iff (field : String) :
    (∃ bytes, decodeBinary field text = .ok bytes) ↔ IsUrlText text := by
  simp only [decodeBinary_eq_ok, IsUrlText]

/-- Texts are read as the same octets exactly if one of them is read and they differ in padding. -/
theorem decodeBinary_eq_iff :
    (∃ bytes, decodeBinary field text = .ok bytes ∧ decodeBinary field' text' = .ok bytes) ↔
      IsUrlText text ∧ DifferInPadding text text' := by
  rw [Base64.differInPadding_iff]
  simp only [decodeBinary_eq_ok]
  constructor
  · rintro ⟨bytes, hText, hText'⟩
    exact ⟨⟨bytes, hText⟩, hText.trans hText'.symm⟩
  · rintro ⟨⟨bytes, hText⟩, hSame⟩
    exact ⟨bytes, hText, hSame.symm.trans hText⟩

/-- A binary member that is not read is refused by its name. -/
theorem decodeBinary_refuses_iff :
    (∃ fault, decodeBinary field text = .error (.binary field fault)) ↔ ¬IsUrlText text := by
  rw [← decodeBinary_isOk_iff field]
  constructor
  · rintro ⟨fault, hRefused⟩ ⟨bytes, hRead⟩
    rw [hRefused] at hRead
    cases hRead
  · intro hUnread
    cases hResult : decodeBinary field text with
    | ok bytes => exact absurd ⟨bytes, hResult⟩ hUnread
    | error e =>
        obtain ⟨fault, -, rfl⟩ := decodeBinary_eq_error.mp hResult
        exact ⟨fault, rfl⟩

/-- What is read from binary members and from data to sign. The text that is written for octets is read
as these octets, with any number of `=` behind it. Whatever is read is the text that is written but
for the `=` at its end, so that texts are read alike exactly if they differ in these. Any other text is
refused by the name of the member. Data to sign is read only as it is written. What is written is
the one text that spells the octets in the alphabet, filled up for data to sign. -/
theorem octets_have_one_text (field field' text text' : String) (bytes : Bytes) (n : Nat) :
    decodeBinary field (padded (encodeUrl bytes) n) = .ok bytes ∧
    (decodeBinary field text = .ok bytes ↔ encodeUrl bytes = unpadded text) ∧
    ((∃ bytes, decodeBinary field text = .ok bytes ∧ decodeBinary field' text' = .ok bytes) ↔
      IsUrlText text ∧ DifferInPadding text text') ∧
    ((∃ fault, decodeBinary field text = .error (.binary field fault)) ↔
      ¬∃ bytes n, text = padded (encodeUrl bytes) n) ∧
    ((Base64.decodeStandard text).mapError (DecodeError.binary field) = .ok bytes ↔
      text = encodeStandard bytes) ∧
    (text = encodeUrl bytes ↔ Spells urlSafeSymbols .forbidden bytes text) ∧
    (text = encodeStandard bytes ↔ Spells standardSymbols .required bytes text) := by
  refine ⟨?_, ?_, decodeBinary_eq_iff, ?_, ?_, Base64.spells_urlSafe.symm,
    Base64.spells_standard.symm⟩
  · rw [decodeBinary_eq_ok, Base64.unpadded_padded, Base64.unpadded_encodeUrl]
  · rw [decodeBinary_eq_ok, eq_comm]
  · rw [decodeBinary_refuses_iff, Base64.isUrlText_iff]
  · rw [Except.mapError_eq_ok, Base64.decodeStandard_eq_ok]

/-- Bits that no octet has are not passed over. -/
example : decodeBinary "rawId" "AQJ=" = .error (.binary "rawId" (.lastSymbol 74 2)) := by
  decide +kernel

end RemoteSigning.Ceremony
