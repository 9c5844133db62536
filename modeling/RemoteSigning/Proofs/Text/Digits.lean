import RemoteSigning.Text.Hex

/-!
# Digits

What digits are worth: single ones, and a decimal number while its digits are read.
-/

namespace RemoteSigning.Text

/-- The code points of the ten digits. -/
theorem toNat_of_isDigit {c : Char} (h : c.isDigit) : 48 ≤ c.toNat ∧ c.toNat ≤ 57 := by
  simp only [Char.isDigit, Bool.and_eq_true, decide_eq_true_eq] at h
  exact h

/-- A digit is the character of a number below ten. -/
theorem exists_of_isDigit {c : Char} (h : c.isDigit) : ∃ d < 10, c = Char.ofNat (48 + d) := by
  have hRange := toNat_of_isDigit h
  exact ⟨c.toNat - 48, by omega, by rw [Nat.add_sub_cancel' hRange.1, Char.ofNat_toNat]⟩

/-- Digits make a number no smaller. -/
theorem le_ofDigitChars (cs : List Char) (n : Nat) : n ≤ Nat.ofDigitChars 10 cs n := by
  induction cs generalizing n with
  | nil => exact Nat.le_refl n
  | cons c cs ih =>
      rw [Nat.ofDigitChars_cons]
      have hMore := ih (10 * n + (c.toNat - '0'.toNat))
      omega

namespace Hex

/-- Each hexadecimal digit is read as its number. -/
theorem digit?_lowerDigit : ∀ n < 16, digit? (lowerDigit n) = some n := by decide

theorem digit?_upperDigit : ∀ n < 16, digit? (upperDigit n) = some n := by decide

theorem toNat_upperDigit_lt : ∀ n < 16, (upperDigit n).toNat < 0x80 := by decide

theorem digit?_digitChar : ∀ n < 16, digit? (Nat.digitChar n) = some n := by decide

/-- Only numbers below 16 are read from a digit. -/
theorem digit?_lt {c : Char} {d : Nat} (h : digit? c = some d) : d < 16 := by
  simp only [digit?, Bool.and_eq_true, decide_eq_true_eq, Char.le_def, UInt32.le_iff_toNat_le,
    Char.toNat] at h
  split at h
  · next hDecimal =>
    have : c.val.toNat ≤ 57 := hDecimal.2
    obtain rfl := Option.some.inj h
    omega
  · split at h
    · next hLower =>
      have : c.val.toNat ≤ 102 := hLower.2
      obtain rfl := Option.some.inj h
      omega
    · split at h
      · next hUpper =>
        have : c.val.toNat ≤ 70 := hUpper.2
        obtain rfl := Option.some.inj h
        omega
      · cases h

end Hex

end RemoteSigning.Text
