import RemoteSigning.Json.Document
import RemoteSigning.Json.Printer
import RemoteSigning.Proofs.Results
import Mathlib.Data.List.Basic

/-!
# Integers read back

An integer in the exact range is written with its digits alone, and read back as the same integer
wherever the text goes on with something that cannot belong to a number.
-/

namespace RemoteSigning.Json

open Number Text

/-- Whether a source starts with nothing that could belong to a number before it. -/
def Delimits (rest : Source) : Prop :=
  ∀ c ∈ rest.head?, digit? c = none ∧ c ≠ some '.' ∧ c ≠ some 'e' ∧ c ≠ some 'E'

/-- The digits of a number from the most significant one on. -/
def digitValues (n : Nat) : List Nat := (natDigits n).map fun c => c.toNat - 48

theorem digitValues_of_lt {n : Nat} (h : n < 10) : digitValues n = [n] := by
  simp [digitValues, natDigits, Nat.toDigits_of_lt_base h, Nat.toNat_digitChar_sub_48_of_lt_ten h]

theorem natDigits_of_le {n : Nat} (h : 10 ≤ n) :
    natDigits n = natDigits (n / 10) ++ [Nat.digitChar (n % 10)] :=
  Nat.toDigits_of_base_le (by decide) h

/-- The last digit of a number with several of them is what is left over from tens. -/
theorem digitValues_of_le {n : Nat} (h : 10 ≤ n) :
    digitValues n = digitValues (n / 10) ++ [n % 10] := by
  have hDigit : n % 10 < 10 := Nat.mod_lt _ (by decide)
  simp [digitValues, natDigits_of_le h, Nat.toNat_digitChar_sub_48_of_lt_ten hDigit]

/-- The first digit is zero for no number but zero. -/
theorem exists_digitValues_eq_cons {n : Nat} (h : 0 < n) :
    ∃ d ds, d ≠ 0 ∧ digitValues n = d :: ds := by
  induction n using Nat.strongRecOn with
  | ind n ih =>
      by_cases hSmall : n < 10
      · exact ⟨n, [], by omega, digitValues_of_lt hSmall⟩
      · obtain ⟨d, ds, hd, hDigits⟩ := ih (n / 10) (by omega) (by omega)
        exact ⟨d, ds ++ [n % 10], hd, by rw [digitValues_of_le (by omega), hDigits]; rfl⟩

/-- No zero stands in front of another digit. -/
theorem digitValues_shape (n : Nat) :
    (∃ d, digitValues n = [d]) ∨ ∃ d e ds, d ≠ 0 ∧ digitValues n = d :: e :: ds := by
  by_cases hSmall : n < 10
  · exact .inl ⟨n, digitValues_of_lt hSmall⟩
  · obtain ⟨d, ds, hd, hDigits⟩ := exists_digitValues_eq_cons (n := n / 10) (by omega)
    rw [digitValues_of_le (by omega), hDigits]
    cases ds with
    | nil => exact .inr ⟨d, n % 10, [], hd, rfl⟩
    | cons e ds => exact .inr ⟨d, e, ds ++ [n % 10], hd, rfl⟩

/-- As long as the number fits, one more digit is taken in. -/
theorem accumulate_concat {m k d : Nat} {ds : List Nat} (h : accumulate m ds = (k, []))
    (hd : k * 10 + d < 2 ^ 64) : accumulate m (ds ++ [d]) = (k * 10 + d, []) := by
  induction ds generalizing m with
  | nil =>
      obtain ⟨rfl, -⟩ := Prod.mk.inj h
      rw [List.nil_append, accumulate, if_pos hd, accumulate]
  | cons e ds ih =>
      rw [accumulate] at h
      split at h
      · rename_i hFits
        simp only [List.cons_append, accumulate, hFits, if_true, ih h]
      · simp at h

/-- The digits of a number that fits add up to it. -/
theorem accumulate_digitValues {n : Nat} (h : n < 2 ^ 64) :
    accumulate 0 (digitValues n) = (n, []) := by
  induction n using Nat.strongRecOn with
  | ind n ih =>
      by_cases hSmall : n < 10
      · rw [digitValues_of_lt hSmall, accumulate, Nat.zero_mul, Nat.zero_add, if_pos h, accumulate]
      · have hSum : n / 10 * 10 + n % 10 = n := by omega
        rw [digitValues_of_le (by omega),
          accumulate_concat (ih (n / 10) (by omega) (by omega)) (by omega), hSum]

theorem readDigits_of_delimits {rest : Source} (h : Delimits rest) : readDigits rest = ([], rest) := by
  cases rest with
  | nil => rfl
  | cons c rest => simp [readDigits, (h c rfl).1]

/-- Digits are read up to what delimits them. -/
theorem readDigits_append {cs : List Char} (hDigits : ∀ c ∈ cs, ∃ d, digit? (some c) = some d)
    {rest : Source} (h : Delimits rest) :
    readDigits (cs.map some ++ rest) = (cs.map fun c => c.toNat - 48, rest) := by
  induction cs with
  | nil => exact readDigits_of_delimits h
  | cons c cs ih =>
      obtain ⟨d, hd⟩ := hDigits c List.mem_cons_self
      have hValue : d = c.toNat - 48 := by
        simp only [digit?] at hd
        split at hd <;> simp_all
      simp [readDigits, hd, ih fun c hc => hDigits c (List.mem_cons_of_mem _ hc), hValue]

theorem digit?_of_mem_natDigits {n : Nat} {c : Char} (h : c ∈ natDigits n) :
    ∃ d, digit? (some c) = some d := by
  have hDigit : c.isDigit = true := Nat.isDigit_of_mem_toDigits (by decide) (by decide) h
  have hRange : ('0' ≤ c && c ≤ '9') = true := by
    simpa [Char.isDigit, Char.le_def] using hDigit
  exact ⟨c.toNat - 48, by simp only [digit?, hRange, if_true]⟩

theorem readDigits_natDigits (n : Nat) {rest : Source} (h : Delimits rest) :
    readDigits ((natDigits n).map some ++ rest) = (digitValues n, rest) :=
  readDigits_append (fun _ hc => digit?_of_mem_natDigits hc) h

/-- After a delimiter there is neither a fraction nor an exponent. -/
theorem readTail_of_delimits {rest : Source} (h : Delimits rest) :
    readFraction rest = .ok (none, rest) ∧ readExponent rest = .ok (none, rest) := by
  cases rest with
  | nil => exact ⟨rfl, rfl⟩
  | cons c rest =>
      obtain ⟨-, hPoint, hLower, hUpper⟩ := h c rfl
      constructor
      · unfold readFraction
        split
        · simp_all
        · rfl
      · unfold readExponent
        split <;> simp_all

theorem natDigits_ne_nil (n : Nat) : natDigits n ≠ [] := Nat.toDigits_ne_nil

/-- A number starts with no sign of its own. -/
theorem exists_natDigits_eq_cons (n : Nat) : ∃ c cs, natDigits n = c :: cs ∧ c ≠ '-' := by
  obtain ⟨c, cs, hDigits⟩ := List.exists_cons_of_ne_nil (natDigits_ne_nil n)
  refine ⟨c, cs, hDigits, ?_⟩
  rintro rfl
  obtain ⟨d, hd⟩ := digit?_of_mem_natDigits (hDigits ▸ List.mem_cons_self)
  simp [digit?] at hd

/-- Digits behind an optional minus sign are read as an integer literal. -/
theorem readNumber_natDigits (negative : Bool) (n : Nat) {rest : Source} (h : Delimits rest) :
    readNumber (((if negative then ['-'] else []) ++ natDigits n).map some ++ rest) =
      .ok (⟨negative, digitValues n, none, none⟩, rest) := by
  obtain ⟨hFraction, hExponent⟩ := readTail_of_delimits h
  have hRead := readDigits_natDigits n h
  have hShape := digitValues_shape n
  cases negative with
  | true =>
      simp only [if_true, List.cons_append, List.nil_append, List.map_cons, readNumber, hRead]
      rcases hShape with ⟨d, hDigits⟩ | ⟨d, e, ds, hd, hDigits⟩
      · simp [hDigits, hFraction, hExponent]
      · simp [hDigits, hd, hFraction, hExponent]
  | false =>
      obtain ⟨c, cs, hStart, hSign⟩ := exists_natDigits_eq_cons n
      simp only [Bool.false_eq_true, if_false, List.nil_append, hStart, List.map_cons,
        List.cons_append] at hRead ⊢
      rcases hShape with ⟨d, hDigits⟩ | ⟨d, e, ds, hd, hDigits⟩
      · simp [readNumber, hSign, hRead, hDigits, hFraction, hExponent]
      · simp [readNumber, hSign, hRead, hDigits, hd, hFraction, hExponent]

/-- Digits without a fraction and an exponent are the value of an integer. -/
theorem value_digitValues {negative : Bool} {n : Nat} (h : n < 2 ^ 64) :
    NumberText.value ⟨negative, digitValues n, none, none⟩ = integerOf negative n := by
  simp only [NumberText.value, accumulate_digitValues h]

/-- The integers that JSON keeps exact. -/
def InExactRange (n : Int) : Prop := -2 ^ 63 ≤ n ∧ n < 2 ^ 64

/-- An integer that fits is read from its text. -/
theorem readNumber_integerText {n : Int} (hRange : InExactRange n) {rest : Source}
    (h : Delimits rest) :
    ∃ t : NumberText, readNumber ((integerText n).map some ++ rest) = .ok (t, rest) ∧
      t.value = .ok (.integer n) := by
  obtain ⟨hLow, hHigh⟩ := hRange
  have hBelow : n.natAbs < 2 ^ 64 := by omega
  by_cases hSign : n < 0
  · refine ⟨_, by simpa [integerText, hSign] using readNumber_natDigits true n.natAbs h, ?_⟩
    have hExact : 0 < n.natAbs ∧ n.natAbs ≤ 2 ^ 63 := by omega
    have hAbs : -(n.natAbs : Int) = n := by omega
    rw [value_digitValues hBelow, integerOf, if_pos rfl, if_pos hExact, hAbs]
  · refine ⟨_, by simpa [integerText, hSign] using readNumber_natDigits false n.natAbs h, ?_⟩
    have hAbs : (n.natAbs : Int) = n := by omega
    rw [value_digitValues hBelow, integerOf, if_neg (by decide), hAbs]

end RemoteSigning.Json
