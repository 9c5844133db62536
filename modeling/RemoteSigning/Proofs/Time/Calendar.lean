import RemoteSigning.Time.Calendar
import Mathlib.Tactic.IntervalCases

/-!
# Day numbers and dates

Every day number has a date, and the date has that day number. Eras of 400 years are alike, so that
what has to be said of days and years is said of those of one era.
-/

namespace RemoteSigning.Time

/-- The day on which a year begins, in years that begin in March. -/
def yearStart (y : Int) : Int := 365 * y + y / 4 - y / 100 + y / 400

/-- The leap day of a year that begins in March is in the next calendar year. -/
theorem yearStart_succ (y : Int) :
    yearStart (y + 1) = yearStart y + 365 + if isLeapYear (y + 1) then 1 else 0 := by
  have hFour : (y + 1) / 4 = y / 4 + if (y + 1) % 4 = 0 then 1 else 0 := by split_ifs <;> omega
  have hHundred : (y + 1) / 100 = y / 100 + if (y + 1) % 100 = 0 then 1 else 0 := by
    split_ifs <;> omega
  have hEra : (y + 1) / 400 = y / 400 + if (y + 1) % 400 = 0 then 1 else 0 := by
    split_ifs <;> omega
  have hLeap : isLeapYear (y + 1) ↔
      (y + 1) % 4 = 0 ∧ ((y + 1) % 100 ≠ 0 ∨ (y + 1) % 400 = 0) := by
    simp [isLeapYear]
  simp only [yearStart, hFour, hHundred, hEra, hLeap]
  split_ifs <;> omega

/-- A day of an era, less the leap days before it. -/
def leapless (d : Int) : Int := d - d / 1460 + d / 36524 - d / 146096

/-- The year of an era in which a day lies. -/
def yearOf (d : Int) : Int := leapless d / 365

variable {d e : Int}

theorem leapless_mono (h : d ≤ e) : leapless d ≤ leapless e := by
  unfold leapless
  omega

/-- The first and the last day of a year, less the leap days before them. -/
theorem leapless_yearStart : ∀ y : Nat, y < 400 →
    365 * (y : Int) ≤ leapless (yearStart y) ∧
      leapless (yearStart (y + 1) - 1) < 365 * (y + 1) := by
  decide +kernel

/-- A day of an era is in one of its 400 years. -/
theorem yearOf_bounds (h : 0 ≤ d) (h' : d < 146097) : 0 ≤ yearOf d ∧ yearOf d < 400 := by
  unfold yearOf leapless
  omega

/-- A day lies in its year. -/
theorem yearStart_le_lt (h : 0 ≤ d) (h' : d < 146097) :
    yearStart (yearOf d) ≤ d ∧ d < yearStart (yearOf d + 1) := by
  obtain ⟨hLow, hHigh⟩ := yearOf_bounds h h'
  have hYear : 365 * yearOf d ≤ leapless d ∧ leapless d < 365 * (yearOf d + 1) := by
    unfold yearOf
    omega
  obtain ⟨n, hn⟩ := Int.eq_ofNat_of_zero_le hLow
  rw [hn] at hYear hHigh ⊢
  constructor
  · apply Int.not_lt.mp
    intro hBefore
    cases n with
    | zero => exact Int.not_lt.mpr h hBefore
    | succ m =>
        have hMono : leapless d ≤ leapless (yearStart (m + 1 : Nat) - 1) := leapless_mono (by omega)
        have hStart := (leapless_yearStart m (by omega)).2
        push_cast at hMono hYear
        omega
  · apply Int.not_le.mp
    intro hAfter
    by_cases hLast : n = 399
    · subst hLast
      have hEnd : yearStart ((399 : Nat) + 1) = 146097 := by decide
      omega
    · have hMono : leapless (yearStart (n + 1)) ≤ leapless d := leapless_mono hAfter
      have hStart := (leapless_yearStart (n + 1) (by omega)).1
      push_cast at hStart
      omega

/-- The day of a year on which a month begins, in years that begin in March. -/
def monthStart (m : Int) : Int := (153 * m + 2) / 5

/-- The month of a year in which a day lies. -/
def monthOf (d : Int) : Int := (5 * d + 2) / 153

/-- A day of a year that starts in March is in one of its twelve months. -/
theorem monthOf_bounds (h : 0 ≤ d) (h' : d ≤ 365) : 0 ≤ monthOf d ∧ monthOf d ≤ 11 := by
  unfold monthOf
  omega

/-- A day lies between the start of its month and that of the next one. -/
theorem monthStart_le_lt (d : Int) : monthStart (monthOf d) ≤ d ∧ d < monthStart (monthOf d + 1) := by
  unfold monthStart monthOf
  omega

theorem monthStart_mono {m m' : Int} (h : m ≤ m') : monthStart m ≤ monthStart m' := by
  unfold monthStart
  omega

/-- Whether numbers are the year of an era, the month of that year and the day of that month for some
day. All are counted from 0, and the months from March on. -/
structure AreParts (y m day : Int) : Prop where
  yearBounds : 0 ≤ y ∧ y < 400
  monthBounds : 0 ≤ m ∧ m ≤ 11
  nonneg : 0 ≤ day
  nextMonth : monthStart m + day < monthStart (m + 1)
  nextYear : monthStart m + day < 365 + if isLeapYear (y + 1) then 1 else 0

/-- The year, the month and the day that are computed for a day of an era are parts of it. -/
theorem areParts_of_day (h : 0 ≤ d) (h' : d < 146097) :
    let day := d - yearStart (yearOf d)
    AreParts (yearOf d) (monthOf day) (day - monthStart (monthOf day)) := by
  intro day
  obtain ⟨hBegun, hOngoing⟩ := yearStart_le_lt h h'
  rw [yearStart_succ] at hOngoing
  obtain ⟨hThisMonth, hNextMonth⟩ := monthStart_le_lt day
  have hDay : 0 ≤ day ∧ day < 365 + if isLeapYear (yearOf d + 1) then 1 else 0 := by omega
  have hLength : day ≤ 365 := by split_ifs at hDay <;> omega
  exact ⟨yearOf_bounds h h', monthOf_bounds hDay.1 hLength, by omega, by omega, by omega⟩

/-- A date by its parts and its era. -/
def Date.ofParts (era y m day : Int) : Date :=
  ⟨y + era * 400 + if m < 10 then 0 else 1, (if m < 10 then m + 3 else m - 9).toNat,
    (day + 1).toNat⟩

variable {era y m day : Int}

/-- The days of a date can be computed from its parts. -/
theorem Date.toDays_ofParts (h : AreParts y m day) (era : Int) :
    (Date.ofParts era y m day).toDays =
      era * 146097 + yearStart y + monthStart m + day - 719468 := by
  obtain ⟨hYear, hMonth, hDay, -, -⟩ := h
  have hMarch : (if (Date.ofParts era y m day).month ≤ 2 then (Date.ofParts era y m day).year - 1
      else (Date.ofParts era y m day).year) = y + era * 400 := by
    simp only [Date.ofParts]
    split_ifs <;> omega
  have hMonthBack : (if 2 < (Date.ofParts era y m day).month then
      ((Date.ofParts era y m day).month : Int) - 3 else (Date.ofParts era y m day).month + 9) = m := by
    simp only [Date.ofParts]
    split_ifs <;> omega
  have hDayBack : ((Date.ofParts era y m day).day : Int) = day + 1 := Int.toNat_of_nonneg (by omega)
  have hEra : Int.fdiv (y + era * 400) 400 = era := by
    rw [Int.fdiv_eq_ediv_of_nonneg _ (by decide)]
    omega
  simp only [Date.toDays, hMarch, hMonthBack, hDayBack, hEra, monthStart, yearStart]
  omega

/-- Every day has parts from which its date is made. -/
theorem Date.ofDays_eq (days : Int) : ∃ era y m day,
    AreParts y m day ∧ Date.ofDays days = Date.ofParts era y m day ∧
      days = era * 146097 + yearStart y + monthStart m + day - 719468 := by
  have hOf : ∀ era d day, Int.fdiv (days + 719468) 146097 = era → days + 719468 - era * 146097 = d →
      d - (365 * yearOf d + yearOf d / 4 - yearOf d / 100) = day → Date.ofDays days =
        ⟨if (if monthOf day < 10 then monthOf day + 3 else monthOf day - 9) ≤ 2
          then yearOf d + era * 400 + 1 else yearOf d + era * 400,
        (if monthOf day < 10 then monthOf day + 3 else monthOf day - 9).toNat,
        (day - monthStart (monthOf day) + 1).toNat⟩ := by
    rintro _ _ _ rfl rfl rfl
    rfl
  obtain ⟨d, hd⟩ : ∃ d, d = (days + 719468) % 146097 := ⟨_, rfl⟩
  obtain ⟨day, hDay⟩ : ∃ day, day = d - yearStart (yearOf d) := ⟨_, rfl⟩
  have hParts := areParts_of_day (d := d) (by omega) (by omega)
  rw [← hDay] at hParts
  have hEra : Int.fdiv (days + 719468) 146097 = (days + 719468) / 146097 :=
    Int.fdiv_eq_ediv_of_nonneg _ (by decide)
  have hDayOfYear : d - (365 * yearOf d + yearOf d / 4 - yearOf d / 100) = day := by
    have hYear := hParts.yearBounds
    rw [hDay, yearStart]
    omega
  refine ⟨(days + 719468) / 146097, _, _, _, hParts, ?_, by omega⟩
  rw [hOf _ d day hEra (by omega) hDayOfYear, ofParts]
  have hMonth := hParts.monthBounds
  congr 1
  split_ifs <;> omega

/-- The date of a day has its number. -/
theorem Date.toDays_ofDays (days : Int) : (Date.ofDays days).toDays = days := by
  obtain ⟨era, y, m, day, hParts, hDate, hDays⟩ := Date.ofDays_eq days
  rw [hDate, Date.toDays_ofParts hParts, hDays]

theorem yearStart_mono {y y' : Int} (h : y ≤ y') : yearStart y ≤ yearStart y' := by
  unfold yearStart
  omega

/-- An era has as many days as any other. -/
theorem yearStart_add_eras (y era : Int) :
    yearStart (y + era * 400) = yearStart y + era * 146097 := by
  unfold yearStart
  omega

/-- It has its leap years in the same places. -/
theorem isLeapYear_add_eras (y era : Int) : isLeapYear (y + era * 400) = isLeapYear y := by
  have hFour : (y + era * 400) % 4 = y % 4 := by omega
  have hHundred : (y + era * 400) % 100 = y % 100 := by omega
  have hEra : (y + era * 400) % 400 = y % 400 := by omega
  rw [isLeapYear, isLeapYear, hFour, hHundred, hEra]

/-- A date made from parts has a day that its month has. -/
theorem AreParts.day_le (h : AreParts y m day) (era : Int) :
    (Date.ofParts era y m day).day ≤
      daysInMonth (Date.ofParts era y m day).year (Date.ofParts era y m day).month := by
  obtain ⟨-, ⟨hLow, hHigh⟩, hDay, hNextMonth, hNextYear⟩ := h
  rw [← isLeapYear_add_eras (y + 1) era, add_right_comm] at hNextYear
  -- Only the last month, February, may be cut short by the end of the year.
  rcases Int.lt_or_eq_of_le hHigh with hBefore | rfl
  · interval_cases m <;> simp [Date.ofParts, monthStart, daysInMonth] at * <;> omega
  · cases hLeap : isLeapYear (y + era * 400 + 1) <;>
      simp [Date.ofParts, monthStart, daysInMonth, hLeap] at * <;> omega

/-- The year of a date lies in the calendar if its day does. The first year of the calendar begins in
the eleventh month from a March on, and the last one ends with the tenth. -/
theorem year_bounds {y m d : Int} (hDay : 0 ≤ d) (hThisMonth : monthStart m ≤ d)
    (hNextMonth : d < monthStart (m + 1)) (hNextYear : yearStart y + d < yearStart (y + 1))
    (hFirst : Date.toDays ⟨firstYear, 1, 1⟩ ≤ yearStart y + d - 719468)
    (hLast : yearStart y + d - 719468 ≤ Date.toDays ⟨lastYear, 12, 31⟩) :
    firstYear ≤ y + (if m < 10 then 0 else 1) ∧ y + (if m < 10 then 0 else 1) ≤ lastYear := by
  have hFirstDay : Date.toDays ⟨firstYear, 1, 1⟩ = yearStart (-262144) + 306 - 719468 := by decide
  have hLastDay : Date.toDays ⟨lastYear, 12, 31⟩ = yearStart 262142 + 305 - 719468 := by decide
  have hTen : monthStart 10 = 306 := by decide
  constructor
  · have hYear : -262144 ≤ y := by
      apply Int.not_lt.mp
      intro hBefore
      have hMono : yearStart (y + 1) ≤ yearStart (-262144) := yearStart_mono hBefore
      omega
    rcases Int.lt_or_eq_of_le hYear with hLater | rfl
    · split_ifs <;> simp only [firstYear] <;> omega
    · have hMonth : ¬m < 10 := by
        intro hBefore
        have hMono : monthStart (m + 1) ≤ monthStart 10 := monthStart_mono hBefore
        omega
      rw [if_neg hMonth]
      decide
  · have hYear : y ≤ 262142 := by
      apply Int.not_lt.mp
      intro hAfter
      have hMono : yearStart (262142 + 1) ≤ yearStart y := yearStart_mono hAfter
      have hNext := yearStart_succ 262142
      split_ifs at hNext <;> omega
    rcases Int.lt_or_eq_of_le hYear with hEarlier | rfl
    · split_ifs <;> simp only [lastYear] <;> omega
    · have hMonth : m < 10 := by
        apply Int.not_le.mp
        intro hAfter
        have hMono : monthStart 10 ≤ monthStart m := monthStart_mono hAfter
        omega
      rw [if_pos hMonth]
      decide

/-- The date of a day in the calendar exists. -/
theorem Date.isValid_ofDays {days : Int} (hFirst : Date.toDays ⟨firstYear, 1, 1⟩ ≤ days)
    (hLast : days ≤ Date.toDays ⟨lastYear, 12, 31⟩) : (Date.ofDays days).isValid := by
  obtain ⟨era, y, m, day, hParts, hDate, hDays⟩ := Date.ofDays_eq days
  have hLe := hParts.day_le era
  rw [hDate]
  obtain ⟨-, hMonth, hDay, hNextMonth, hNextYear⟩ := hParts
  have hEra := yearStart_add_eras y era
  have hNext := yearStart_succ (y + era * 400)
  rw [add_right_comm, isLeapYear_add_eras] at hNext
  have hStart : 0 ≤ monthStart m := monthStart_mono hMonth.1
  have hYears := year_bounds (y := y + era * 400) (m := m) (d := monthStart m + day)
    (by omega) (by omega) hNextMonth (by rw [add_right_comm]; omega) (by omega) (by omega)
  have hMonths : 1 ≤ (Date.ofParts era y m day).month ∧ (Date.ofParts era y m day).month ≤ 12 := by
    simp only [ofParts]
    split_ifs <;> omega
  have hFirstDay : 1 ≤ (Date.ofParts era y m day).day := by
    simp only [ofParts]
    omega
  simp only [isValid, Bool.and_eq_true, decide_eq_true_eq]
  exact ⟨⟨⟨⟨⟨hYears.1, hYears.2⟩, hMonths.1⟩, hMonths.2⟩, hFirstDay⟩, hLe⟩

end RemoteSigning.Time
