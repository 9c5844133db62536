import RemoteSigning.Proofs.Results
import RemoteSigning.Proofs.Text.Digits
import RemoteSigning.Proofs.Time.Calendar
import RemoteSigning.Time.Instant
import Mathlib.Tactic.Positivity

/-!
# Instants read back

A text that is read as an instant gives one in the calendar, with a leap second only at the end of a
minute. Every such instant is read back from its own text, which is in universal time whatever the
offset of the first text was.
-/

namespace RemoteSigning.Time

open Text

variable {c : Char} {cs rest : List Char} {n width : Nat}

theorem digit?_eq_some (h : c.isDigit) : digit? c = some (c.toNat - 48) := if_pos h

theorem isBlank_of_isDigit (h : c.isDigit) : isBlank c = false := by
  have hRange := toNat_of_isDigit h
  simp only [isBlank, Bool.or_eq_false_iff, Bool.and_eq_false_iff, beq_eq_false_iff_ne,
    decide_eq_false_iff_not]
  omega

/-- Digits are read until there are enough of them or something else follows. -/
theorem readMore_append (hDigits : ∀ c ∈ cs, c.isDigit) (hWidth : cs.length ≤ width)
    (hEnd : cs.length = width ∨ ∀ c ∈ rest.head?, digit? c = none)
    (hFits : Nat.ofDigitChars 10 cs n ≤ greatestNumber) :
    readMore n width (cs ++ rest) = .ok (Nat.ofDigitChars 10 cs n, rest) := by
  induction cs generalizing n width with
  | nil =>
      cases width with
      | zero => rfl
      | succ width =>
          have hOther := hEnd.resolve_left nofun
          cases rest with
          | nil => rfl
          | cons c rest => simp [readMore, hOther c rfl]
  | cons c cs ih =>
      cases width with
      | zero => cases hWidth
      | succ width =>
          obtain ⟨hFirst, hRest⟩ := List.forall_mem_cons.mp hDigits
          rw [Nat.ofDigitChars_cons, Nat.mul_comm] at hFits ⊢
          have hLe := (le_ofDigitChars cs _).trans hFits
          have hNext := ih hRest (Nat.le_of_succ_le_succ hWidth) (hEnd.imp_left Nat.succ.inj) hFits
          rw [List.cons_append, readMore, digit?_eq_some hFirst]
          exact (if_neg (Nat.not_lt.mpr hLe)).trans hNext

/-- Digits are read as a number up to what ends them, or up to the width. -/
theorem readNumber_append (hDigits : ∀ c ∈ cs, c.isDigit) (hSome : cs ≠ [])
    (hWidth : cs.length ≤ width)
    (hEnd : cs.length = width ∨ ∀ c ∈ rest.head?, digit? c = none)
    (hFits : Nat.ofDigitChars 10 cs 0 ≤ greatestNumber) :
    readNumber width (cs ++ rest) = .ok (Nat.ofDigitChars 10 cs 0, rest) := by
  have hMore := readMore_append hDigits hWidth hEnd hFits
  cases cs with
  | nil => exact absurd rfl hSome
  | cons c cs =>
      have hFirst := digit?_eq_some (hDigits c List.mem_cons_self)
      simp only [List.cons_append, readNumber, hFirst, Option.isSome_some, if_true]
      exact hMore

/-- A padded number consists of digits. -/
theorem isDigit_of_mem_padded (width n : Nat) : ∀ c ∈ padded width n, c.isDigit := by
  intro c hc
  rcases List.mem_append.mp hc with hc | hc
  · rw [List.eq_of_mem_replicate hc]
    decide
  · exact Nat.isDigit_of_mem_toDigits (by decide) (by decide) hc

theorem padded_ne_nil (width n : Nat) : padded width n ≠ [] :=
  List.append_ne_nil_of_right_ne_nil _ Nat.toDigits_ne_nil

/-- A number that is not too long is padded to the width. -/
theorem length_padded (hWidth : 0 < width) (h : n < 10 ^ width) : (padded width n).length = width := by
  have hDigits := (Nat.length_toDigits_le_iff (by decide) hWidth).mpr h
  rw [padded, List.length_append, List.length_replicate]
  omega

/-- Padding does not change the number. -/
theorem ofDigitChars_padded (width n : Nat) : Nat.ofDigitChars 10 (padded width n) 0 = n := by
  have hZeros (k : Nat) : Nat.ofDigitChars 10 (List.replicate k '0') 0 = 0 := by
    induction k with
    | zero => rfl
    | succ k ih => exact ih
  rw [padded, Nat.ofDigitChars_append, hZeros, Nat.ofDigitChars_toDigits (by decide) (by decide)]

/-- A padded number begins with a digit. -/
theorem exists_padded_eq_cons (width n : Nat) : ∃ c cs, padded width n = c :: cs ∧ c.isDigit := by
  obtain ⟨c, cs, hPadded⟩ := List.exists_cons_of_ne_nil (padded_ne_nil width n)
  exact ⟨c, cs, hPadded, isDigit_of_mem_padded width n c (hPadded ▸ List.mem_cons_self)⟩

theorem trimLeft_cons (h : isBlank c = false) (cs : List Char) : trimLeft (c :: cs) = c :: cs :=
  List.dropWhile_cons_of_neg (by simp [h])

theorem trimLeft_padded (width n : Nat) (rest : List Char) :
    trimLeft (padded width n ++ rest) = padded width n ++ rest := by
  obtain ⟨c, cs, hPadded, hDigit⟩ := exists_padded_eq_cons width n
  rw [hPadded, List.cons_append, trimLeft_cons (isBlank_of_isDigit hDigit)]

/-- A padded number of the full width is read, whatever follows it. -/
theorem readNumber_padded (hWidth : 0 < width) (h : n < 10 ^ width) (hFits : n ≤ greatestNumber)
    (rest : List Char) : readNumber width (padded width n ++ rest) = .ok (n, rest) := by
  have hLength := length_padded hWidth h
  have hDigits : readNumber width (padded width n ++ rest) =
      .ok (Nat.ofDigitChars 10 (padded width n) 0, rest) :=
    readNumber_append (isDigit_of_mem_padded width n) (padded_ne_nil width n)
      (Nat.le_of_eq hLength) (.inl hLength) (by rwa [ofDigitChars_padded])
  rwa [ofDigitChars_padded] at hDigits

/-- A part of an instant is read as it is written, if it is within its bounds. -/
theorem readPart_padded {low high : Nat} (hLow : low ≤ n) (hHigh : n ≤ high) (h : n < 100)
    (rest : List Char) : readPart low high (padded 2 n ++ rest) = .ok (n, rest) := by
  have hFits : n ≤ greatestNumber := by
    have hGreatest : 100 ≤ greatestNumber := by decide
    omega
  have hBounds : ¬(n < low ∨ high < n) := by omega
  rw [readPart, trimLeft_padded, readNumber_padded (by decide) h hFits, Except.ok_bind]
  simp only [hBounds, if_false]
  rfl

theorem readMark_cons (h : isBlank c = false) (rest : List Char) : readMark c (c :: rest) = .ok rest := by
  rw [readMark, trimLeft_cons h]
  exact if_pos rfl

/-- A signed year is read up to something else than a digit. -/
theorem readNumber_padded_of_end (h : n ≤ greatestNumber) (hEnd : ∀ c ∈ rest.head?, digit? c = none) :
    readNumber (padded 4 n ++ rest).length (padded 4 n ++ rest) = .ok (n, rest) := by
  have hWidth : (padded 4 n).length ≤ (padded 4 n ++ rest).length := by
    rw [List.length_append]
    exact Nat.le_add_right _ _
  have hRead := readNumber_append (isDigit_of_mem_padded 4 n) (padded_ne_nil 4 n) hWidth (.inr hEnd)
    (by rwa [ofDigitChars_padded])
  rwa [ofDigitChars_padded] at hRead

/-- A year of the calendar is read up to the hyphen after it. -/
theorem readYear_yearText {y : Int} (hFirst : firstYear ≤ y) (hLast : y ≤ lastYear)
    (rest : List Char) : readYear (yearText y ++ '-' :: rest) = .ok (y, '-' :: rest) := by
  have hRange : -262143 ≤ y ∧ y ≤ 262142 := ⟨hFirst, hLast⟩
  have hInRange : ¬(y < -2 ^ 31 ∨ 2 ^ 31 ≤ y) := by omega
  have hFits : ∀ n ≤ 262143, n ≤ greatestNumber := fun n hn => hn.trans (by decide)
  have hHyphen : ∀ c ∈ ('-' :: rest).head?, digit? c = none := by
    rintro c ⟨⟩
    rfl
  unfold yearText
  split
  · rename_i hPlain
    have hYear : ((y.toNat : Nat) : Int) = y := Int.toNat_of_nonneg hPlain.1
    obtain ⟨c, cs, hPadded, hDigit⟩ := exists_padded_eq_cons 4 y.toNat
    have hRead : readNumber 4 (padded 4 y.toNat ++ '-' :: rest) = .ok (y.toNat, '-' :: rest) :=
      readNumber_padded (by decide) (by omega) (hFits _ (by omega)) _
    rw [readYear, trimLeft_padded]
    rw [hPadded, List.cons_append] at hRead ⊢
    split
    · rename_i hMinus
      cases hMinus
      cases hDigit
    · rename_i hPlus
      cases hPlus
      cases hDigit
    · rw [hRead]
      simp only [Except.ok_bind, Except.pure_eq_ok, hYear, hInRange, if_false]
  · have hRead := readNumber_padded_of_end (n := y.natAbs) (hFits _ (by omega)) hHyphen
    split
    · have hYear : -((y.natAbs : Nat) : Int) = y := by omega
      rw [readYear, List.cons_append, trimLeft_cons rfl]
      simp only [hRead, Except.ok_bind, Except.pure_eq_ok, hYear, hInRange, if_false]
    · have hYear : ((y.natAbs : Nat) : Int) = y := by omega
      rw [readYear, List.cons_append, trimLeft_cons rfl]
      simp only [hRead, Except.ok_bind, Except.pure_eq_ok, hYear, hInRange, if_false]

/-- The fraction of a second is read up to the end. -/
theorem readFraction_fractionText (h : n < 10 ^ 9) :
    readFraction (fractionText n ++ ['Z']) = .ok (n, ['Z']) := by
  have hDigits (width m : Nat) (hWidth : 0 < width) (hMost : width ≤ 9) (hm : m < 10 ^ width) :
      readFraction ('.' :: padded width m ++ ['Z']) = .ok (m * 10 ^ (9 - width), ['Z']) := by
    have hLength := length_padded hWidth hm
    have hFits : m ≤ greatestNumber := by
      have hPower : 10 ^ width ≤ 10 ^ 9 := Nat.pow_le_pow_right (by decide) hMost
      have hGreatest : 10 ^ 9 ≤ greatestNumber := by decide
      omega
    have hEnd : ∀ c ∈ ['Z'].head?, digit? c = none := by
      rintro c ⟨⟩
      rfl
    have hRead : readNumber 9 (padded width m ++ ['Z']) =
        .ok (Nat.ofDigitChars 10 (padded width m) 0, ['Z']) :=
      readNumber_append (isDigit_of_mem_padded width m) (padded_ne_nil width m) (by omega)
        (.inr hEnd) (by rwa [ofDigitChars_padded])
    rw [ofDigitChars_padded] at hRead
    have hConsumed : (padded width m ++ ['Z']).length - ['Z'].length = width := by
      rw [List.length_append, hLength, Nat.add_sub_cancel]
    simp only [List.cons_append, readFraction, hRead, Except.ok_bind, hConsumed]
    rfl
  unfold fractionText
  split
  · rename_i hZero
    rw [hZero]
    rfl
  · split
    · rw [hDigits 3 _ (by decide) (by decide) (by omega)]
      congr 2
      omega
    · split
      · rw [hDigits 6 _ (by decide) (by decide) (by omega)]
        congr 2
        omega
      · rw [hDigits 9 n (by decide) (by decide) h]
        simp

/-- Whether an instant lies in the calendar, with a leap second only at the end of a minute. -/
structure Instant.IsValid (t : Instant) : Prop where
  calendar : inCalendar t.seconds
  nanos_lt : t.nanos < 2 * 10 ^ 9
  leap : 10 ^ 9 ≤ t.nanos → t.seconds % 60 = 59

variable {t : Instant}

/-- The calendar is what lies between its first and its last second. -/
theorem inCalendar_iff {s : Int} : inCalendar s ↔ firstSecond ≤ s ∧ s ≤ lastSecond := by
  rw [inCalendar, Bool.and_eq_true, decide_eq_true_eq, decide_eq_true_eq]

/-- The calendar has the start of each of its seconds, and no other instants are made of seconds. -/
theorem Instant.ofSeconds?_eq_some {s : Int} : ofSeconds? s = some t ↔ inCalendar s ∧ ⟨s, 0⟩ = t := by
  rw [ofSeconds?, Option.ite_none_right_eq_some, Option.some.injEq]

/-- Instants are ordered by their seconds and then by the rest. -/
theorem Instant.le_iff {t' : Instant} :
    t.le t' ↔ t.seconds < t'.seconds ∨ t.seconds = t'.seconds ∧ t.nanos ≤ t'.nanos := by
  simp only [le, Bool.or_eq_true, Bool.and_eq_true, decide_eq_true_eq, beq_iff_eq]

theorem Instant.le_trans {t' t'' : Instant} (h : t.le t') (h' : t'.le t'') : t.le t'' := by
  rw [le_iff] at h h' ⊢
  omega

/-- The start of a second is reached as soon as the second is. -/
theorem Instant.start_le_iff {s : Int} : (⟨s, 0⟩ : Instant).le t ↔ s ≤ t.seconds := by
  rw [le_iff, Int.le_iff_lt_or_eq]
  simp only [Nat.zero_le, and_true]

/-- The day of a valid instant is one of the calendar. -/
theorem Instant.IsValid.day_bounds (h : t.IsValid) :
    Date.toDays ⟨firstYear, 1, 1⟩ ≤ Int.fdiv t.seconds secondsPerDay ∧
      Int.fdiv t.seconds secondsPerDay ≤ Date.toDays ⟨lastYear, 12, 31⟩ := by
  have hCalendar := inCalendar_iff.mp h.calendar
  simp only [firstSecond, lastSecond, secondsPerDay] at hCalendar
  rw [secondsPerDay, Int.fdiv_eq_ediv_of_nonneg _ (by decide)]
  omega

/-- An instant is the second of its day after the days before. -/
theorem Instant.seconds_eq (t : Instant) :
    t.seconds = t.date.toDays * secondsPerDay + t.secondOfDay ∧ t.secondOfDay < 86400 := by
  rw [date, Date.toDays_ofDays, secondOfDay, secondsPerDay,
    Int.fdiv_eq_ediv_of_nonneg _ (by decide), Int.fmod_eq_emod_of_nonneg _ (by decide)]
  omega

theorem daysInMonth_le (y : Int) (m : Nat) : daysInMonth y m ≤ 31 := by
  unfold daysInMonth
  split_ifs <;> decide

/-- An instant of the calendar is read back from its text. -/
theorem Instant.ofRfc3339_toRfc3339 (h : t.IsValid) : ofRfc3339 t.toRfc3339 = .ok t := by
  obtain ⟨hFirst, hLast⟩ := h.day_bounds
  have hDate : t.date.isValid := Date.isValid_ofDays hFirst hLast
  have hParts := hDate
  simp only [Date.isValid, Bool.and_eq_true, decide_eq_true_eq] at hParts
  obtain ⟨⟨⟨⟨⟨hYear, hYear'⟩, hMonth⟩, hMonth'⟩, hDay⟩, hDay'⟩ := hParts
  obtain ⟨hSeconds, hOfDay⟩ := t.seconds_eq
  have hMost := daysInMonth_le t.date.year t.date.month
  have hNanos := h.nanos_lt
  -- A leap second is written as the sixty-first of its minute.
  obtain ⟨second, hSecond⟩ : ∃ second, second = t.secondOfDay % 60 + if 10 ^ 9 ≤ t.nanos then 1 else 0 :=
    ⟨_, rfl⟩
  have hLeap : (second = 60 ↔ 10 ^ 9 ≤ t.nanos) ∧ min second 59 = t.secondOfDay % 60 := by
    have hEnd := h.leap
    rw [hSecond]
    simp only [secondsPerDay] at hSeconds
    split_ifs with hNanos <;> omega
  obtain ⟨hLeap, hRest⟩ := hLeap
  have hSixty : second ≤ 60 := by
    rw [hSecond]
    split_ifs <;> omega
  have hText : t.toRfc3339.toList = yearText t.date.year ++ '-' :: (padded 2 t.date.month ++ '-' ::
      (padded 2 t.date.day ++ 'T' :: (padded 2 (t.secondOfDay / 3600) ++ ':' ::
      (padded 2 (t.secondOfDay / 60 % 60) ++ ':' :: (padded 2 second ++
      (fractionText (t.nanos % 10 ^ 9) ++ ['Z'])))))) := by
    simp only [toRfc3339, Date.text, timeText, ← hSecond, String.toList_ofList, List.append_assoc,
      List.cons_append]
  have hOffset : readOffset (trimLeft ['Z']) = .ok (0, []) := by decide
  have hLocal : t.date.toDays * secondsPerDay + ((t.secondOfDay / 3600 * 3600 +
      t.secondOfDay / 60 % 60 * 60 + min second 59 : Nat) : Int) - 0 = t.seconds := by
    rw [hRest]
    omega
  rw [ofRfc3339, hText]
  refine Except.bind_eq_ok.mpr ⟨_, readYear_yearText hYear hYear' _, ?_⟩
  refine Except.bind_eq_ok.mpr ⟨_, readMark_cons rfl _, ?_⟩
  refine Except.bind_eq_ok.mpr ⟨_, readPart_padded hMonth hMonth' (by omega) _, ?_⟩
  refine Except.bind_eq_ok.mpr ⟨_, readMark_cons rfl _, ?_⟩
  refine Except.bind_eq_ok.mpr ⟨_, readPart_padded hDay (by omega) (by omega) _, ?_⟩
  refine Except.bind_eq_ok.mpr ⟨_, rfl, ?_⟩
  refine Except.bind_eq_ok.mpr ⟨_, readPart_padded (Nat.zero_le _) (by omega) (by omega) _, ?_⟩
  refine Except.bind_eq_ok.mpr ⟨_, readMark_cons rfl _, ?_⟩
  refine Except.bind_eq_ok.mpr ⟨_, readPart_padded (Nat.zero_le _) (by omega) (by omega) _, ?_⟩
  refine Except.bind_eq_ok.mpr ⟨_, readMark_cons rfl _, ?_⟩
  refine Except.bind_eq_ok.mpr ⟨_, readPart_padded (Nat.zero_le _) hSixty (by omega) _, ?_⟩
  refine Except.bind_eq_ok.mpr ⟨_, readFraction_fractionText (Nat.mod_lt t.nanos (by decide)), ?_⟩
  refine Except.bind_eq_ok.mpr ⟨_, hOffset, ?_⟩
  refine (if_neg (by decide)).trans ?_
  refine (if_neg (by simp [hDate])).trans ?_
  refine (if_neg (by decide)).trans ?_
  simp only [hLocal]
  refine (if_neg (by simp [h.calendar])).trans ?_
  have hFraction : (if second = 60 then t.nanos % 10 ^ 9 + 10 ^ 9 else t.nanos % 10 ^ 9) = t.nanos := by
    simp only [hLeap]
    split_ifs <;> omega
  rw [hFraction]
  rfl

theorem lt_of_digit? {d : Nat} (h : digit? c = some d) : d < 10 := by
  unfold digit? at h
  split at h
  · rename_i hDigit
    simp only [Bool.and_eq_true, decide_eq_true_eq] at hDigit
    have hHigh : c.toNat ≤ '9'.toNat := hDigit.2
    have hNine : '9'.toNat = 57 := rfl
    cases h
    omega
  · cases h

/-- The value of some further digits. -/
theorem readMore_lt {m : Nat} (h : readMore n width cs = .ok (m, rest)) :
    ∃ k ≤ width, cs.length = k + rest.length ∧ m < (n + 1) * 10 ^ k := by
  induction width generalizing n cs with
  | zero =>
      cases h
      exact ⟨0, Nat.le_refl 0, by omega, by omega⟩
  | succ width ih =>
      cases cs with
      | nil =>
          cases h
          exact ⟨0, Nat.zero_le _, rfl, by omega⟩
      | cons c cs =>
          rw [readMore] at h
          split at h
          · cases h
            exact ⟨0, Nat.zero_le _, by omega, by omega⟩
          · rename_i d hDigit
            split at h
            · cases h
            · obtain ⟨k, hk, hLength, hLt⟩ := ih h
              have hTen : d < 10 := lt_of_digit? hDigit
              refine ⟨k + 1, Nat.succ_le_succ hk, ?_, ?_⟩
              · rw [List.length_cons, hLength]
                omega
              · have hStep : (n * 10 + d + 1) * 10 ^ k ≤ (n + 1) * 10 * 10 ^ k :=
                  Nat.mul_le_mul_right _ (by omega)
                rw [Nat.pow_succ, Nat.mul_comm (10 ^ k), ← Nat.mul_assoc]
                omega

/-- A number that was read has no more digits than its width. -/
theorem readNumber_lt {m : Nat} (h : readNumber width cs = .ok (m, rest)) :
    ∃ k ≤ width, cs.length = k + rest.length ∧ m < 10 ^ k := by
  unfold readNumber at h
  split at h
  · cases h
  · split at h
    · simpa using readMore_lt h
    · cases h

/-- A part that was read is within its bounds. -/
theorem readPart_bounds {low high : Nat} (h : readPart low high cs = .ok (n, rest)) :
    low ≤ n ∧ n ≤ high := by
  obtain ⟨⟨m, after⟩, -, h⟩ := Except.bind_eq_ok.mp h
  simp only at h
  split at h
  · cases h
  · cases h
    omega

/-- A fraction that was read is less than a second. -/
theorem readFraction_lt (h : readFraction cs = .ok (n, rest)) : n < 10 ^ 9 := by
  unfold readFraction at h
  split at h
  · rename_i digits
    obtain ⟨⟨m, after⟩, hNumber, h⟩ := Except.bind_eq_ok.mp h
    obtain ⟨k, hk, hLength, hLt⟩ := readNumber_lt hNumber
    obtain ⟨rfl, -⟩ := Prod.mk.inj (Except.ok.inj h)
    have hWidth : digits.length - after.length = k := by omega
    calc m * 10 ^ (9 - (digits.length - after.length))
        < 10 ^ k * 10 ^ (9 - k) := by
          rw [hWidth]
          exact Nat.mul_lt_mul_of_pos_right hLt (by positivity)
      _ = 10 ^ 9 := by rw [← Nat.pow_add, Nat.add_sub_cancel' hk]
  · cases h
    decide

/-- An offset is a number of whole minutes. -/
theorem readOffsetDigits_mod {offset : Int} (h : readOffsetDigits cs = .ok (offset, rest)) :
    offset % 60 = 0 := by
  obtain ⟨⟨x, x', cs⟩, -, h⟩ := Except.bind_eq_ok.mp h
  obtain ⟨⟨y, y', cs⟩, -, h⟩ := Except.bind_eq_ok.mp h
  simp only at h
  split at h
  · cases h
  · cases h
    omega

/-- An offset is a number of minutes. -/
theorem readOffset_mod {offset : Int} (h : readOffset cs = .ok (offset, rest)) : offset % 60 = 0 := by
  have hSign {cs : List Char} (h : readOffset.sign cs = .ok (offset, rest)) : offset % 60 = 0 := by
    unfold readOffset.sign at h
    split at h
    · cases h
    · split_ifs at h
      · cases h
        rfl
      · exact readOffsetDigits_mod h
      · obtain ⟨⟨n, cs⟩, hDigits, h⟩ := Except.bind_eq_ok.mp h
        have hMod := readOffsetDigits_mod hDigits
        cases h
        omega
  unfold readOffset at h
  split at h
  · split at h
    · cases h
      rfl
    · exact hSign h
  · exact hSign h

/-- What is read as an instant lies in the calendar. -/
theorem Instant.isValid_of_ofRfc3339 {text : String} (h : ofRfc3339 text = .ok t) : t.IsValid := by
  obtain ⟨⟨year, cs⟩, -, h⟩ := Except.bind_eq_ok.mp h
  obtain ⟨cs, -, h⟩ := Except.bind_eq_ok.mp h
  obtain ⟨⟨month, cs⟩, -, h⟩ := Except.bind_eq_ok.mp h
  obtain ⟨cs, -, h⟩ := Except.bind_eq_ok.mp h
  obtain ⟨⟨day, cs⟩, -, h⟩ := Except.bind_eq_ok.mp h
  cases cs with
  | nil => cases h
  | cons mark cs =>
      by_cases hMark : mark = 't' ∨ mark = 'T' ∨ mark = ' '
      · replace h := (if_pos hMark).symm.trans h
        obtain ⟨_, -, h⟩ := Except.bind_eq_ok.mp h
        obtain ⟨⟨hour, cs⟩, -, h⟩ := Except.bind_eq_ok.mp h
        obtain ⟨_, -, h⟩ := Except.bind_eq_ok.mp h
        obtain ⟨⟨minute, cs⟩, -, h⟩ := Except.bind_eq_ok.mp h
        obtain ⟨_, -, h⟩ := Except.bind_eq_ok.mp h
        obtain ⟨⟨second, cs⟩, hSecond, h⟩ := Except.bind_eq_ok.mp h
        obtain ⟨⟨fraction, cs⟩, hFraction, h⟩ := Except.bind_eq_ok.mp h
        obtain ⟨⟨offset, cs⟩, hOffset, h⟩ := Except.bind_eq_ok.mp h
        obtain ⟨-, h⟩ := Except.ite_error_eq_ok.mp h
        obtain ⟨-, h⟩ := Except.ite_error_eq_ok.mp h
        obtain ⟨-, h⟩ := Except.ite_error_eq_ok.mp h
        obtain ⟨hCalendar, h⟩ := Except.ite_error_eq_ok.mp h
        cases h
        have hSixty := (readPart_bounds hSecond).2
        have hNanos := readFraction_lt hFraction
        have hMinutes := readOffset_mod hOffset
        constructor
        · simpa using hCalendar
        · simp only
          split_ifs <;> omega
        · simp only [secondsPerDay]
          split_ifs <;> omega
      · cases (if_neg hMark).symm.trans h

end RemoteSigning.Time
