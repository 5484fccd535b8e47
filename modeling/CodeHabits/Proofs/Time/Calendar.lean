import CodeHabits.Time.Calendar
import Mathlib.Data.List.Range

/-!
# `CodeHabits.Proofs.Time.Calendar`: day numbers and dates

Every day number below the year 10000 is that of one date, and every date has
such a day number. `dayNumber_ofDayNumber` and `isValid_ofDayNumber` say the
first, `dayNumber_lt` the second.

A day number is taken apart into cycles of 400 years, centuries, groups of four
years, years and a day of the year. The number of days before the year that
these parts give is the sum of theirs (`daysBeforeYear_parts`), and the last day
of a leap year is only left over in a leap year (`dayOfYear_lt`). Inside a year
the months are gone through one by one (`ofDayOfYear_spec`).
-/

set_option autoImplicit false

namespace CodeHabits.Time

/-- The number of days of a year. -/
def daysInYear (year : Nat) : Nat :=
  if isLeap year then 366 else 365

/-! ### Months -/

theorem daysBeforeMonth_succ (year : Nat) {month : Nat} (h : 1 ≤ month) :
    daysBeforeMonth year (month + 1) = daysBeforeMonth year month + daysInMonth year month := by
  obtain ⟨m, rfl⟩ : ∃ m, month = m + 1 := ⟨month - 1, by omega⟩
  simp [daysBeforeMonth, List.range_succ]

theorem daysBeforeMonth_thirteen (year : Nat) : daysBeforeMonth year 13 = daysInYear year := by
  unfold daysInYear
  cases h : isLeap year <;> simp [daysBeforeMonth, List.range_succ, daysInMonth, h]

theorem daysBeforeMonth_mono (year : Nat) {m n : Nat} (hm : 1 ≤ m) (h : m ≤ n) :
    daysBeforeMonth year m ≤ daysBeforeMonth year n := by
  induction n, h using Nat.le_induction with
  | base => exact Nat.le_refl _
  | succ n hn ih =>
    rw [daysBeforeMonth_succ year (by omega)]
    omega

/-- Going through the months, a day of the year is found in one of them. The day
that is left is counted from the first of the month reached. -/
theorem ofDayOfYear_spec (year left month day : Nat) (hmonth : 1 ≤ month)
    (hleft : month + left = 12) (hday : daysBeforeMonth year month + day < daysInYear year) :
    let d := Date.ofDayOfYear year left month day
    d.year = year ∧ (1 ≤ d.month ∧ d.month ≤ 12) ∧
      (1 ≤ d.day ∧ d.day ≤ daysInMonth year d.month) ∧
      daysBeforeMonth year d.month + (d.day - 1) = daysBeforeMonth year month + day := by
  induction left generalizing month day with
  | zero =>
    obtain rfl : month = 12 := by omega
    have hlast := @daysBeforeMonth_succ year 12 (by omega)
    rw [daysBeforeMonth_thirteen] at hlast
    rw [Date.ofDayOfYear]
    refine ⟨rfl, ⟨?_, ?_⟩, ⟨Nat.succ_pos day, ?_⟩, rfl⟩
    · show 1 ≤ 12
      omega
    · show 12 ≤ 12
      omega
    · show day + 1 ≤ daysInMonth year 12
      omega
  | succ left ih =>
    rw [Date.ofDayOfYear]
    split
    · refine ⟨rfl, ⟨hmonth, ?_⟩, ⟨Nat.succ_pos day, ?_⟩, rfl⟩
      · show month ≤ 12
        omega
      · show day + 1 ≤ daysInMonth year month
        omega
    · have hnext := daysBeforeMonth_succ year hmonth
      obtain ⟨hyear, hrange, hin, hsum⟩ :=
        ih (month + 1) (day - daysInMonth year month) (by omega) (by omega) (by omega)
      exact ⟨hyear, hrange, hin, by omega⟩

/-! ### Years -/

/-- The year that comes after whole cycles, centuries, groups of four years and
years. -/
def yearOf (cycles centuries fours years : Nat) : Nat :=
  400 * cycles + 100 * centuries + 4 * fours + years + 1

theorem daysBeforeYear_parts (cycles : Nat) {centuries fours years : Nat} (hc : centuries ≤ 3)
    (hf : fours ≤ 24) (hy : years ≤ 3) :
    daysBeforeYear (yearOf cycles centuries fours years)
      = 146097 * cycles + 36524 * centuries + 1461 * fours + 365 * years := by
  simp only [daysBeforeYear, yearOf]
  omega

theorem isLeap_iff (year : Nat) :
    isLeap year = true ↔ year % 4 = 0 ∧ (year % 100 ≠ 0 ∨ year % 400 = 0) := by
  simp [isLeap]

/-- Every year has such parts. -/
theorem exists_yearOf {year : Nat} (h : 1 ≤ year) :
    ∃ cycles centuries fours years, year = yearOf cycles centuries fours years ∧
      centuries ≤ 3 ∧ fours ≤ 24 ∧ years ≤ 3 := by
  refine ⟨(year - 1) / 400, (year - 1) % 400 / 100, (year - 1) % 100 / 4, (year - 1) % 4, ?_⟩
  simp only [yearOf]
  omega

/-- Of four years the last is a leap year, unless it ends a century that does
not end a cycle. -/
theorem isLeap_yearOf (cycles : Nat) {centuries fours years : Nat} (hc : centuries ≤ 3)
    (hf : fours ≤ 24) (hy : years ≤ 3) :
    isLeap (yearOf cycles centuries fours years) = true ↔
      years = 3 ∧ (fours ≠ 24 ∨ centuries = 3) := by
  rw [isLeap_iff]
  simp only [yearOf]
  omega

theorem daysInYear_yearOf (cycles : Nat) {centuries fours years : Nat} (hc : centuries ≤ 3)
    (hf : fours ≤ 24) (hy : years ≤ 3) :
    daysInYear (yearOf cycles centuries fours years)
      = if years = 3 ∧ (fours ≠ 24 ∨ centuries = 3) then 366 else 365 := by
  unfold daysInYear
  exact if_congr (isLeap_yearOf cycles hc hf hy) rfl rfl

/-- A year ends where the next one begins. -/
theorem daysBeforeYear_succ {year : Nat} (h : 1 ≤ year) :
    daysBeforeYear (year + 1) = daysBeforeYear year + daysInYear year := by
  obtain ⟨cycles, centuries, fours, years, rfl, hc, hf, hy⟩ := exists_yearOf h
  rw [daysInYear_yearOf cycles hc hf hy, daysBeforeYear_parts cycles hc hf hy]
  -- The next year is in the same group of four, century or cycle, or in a new one.
  by_cases hyears : years < 3
  · have hnext : yearOf cycles centuries fours years + 1 = yearOf cycles centuries fours (years + 1) :=
      rfl
    rw [hnext, daysBeforeYear_parts cycles hc hf hyears, if_neg (by omega)]
    omega
  obtain rfl : years = 3 := by omega
  by_cases hfours : fours < 24
  · have hnext : yearOf cycles centuries fours 3 + 1 = yearOf cycles centuries (fours + 1) 0 := by
      simp only [yearOf]
      omega
    rw [hnext, daysBeforeYear_parts cycles hc hfours (by omega), if_pos ⟨rfl, .inl (by omega)⟩]
    omega
  obtain rfl : fours = 24 := by omega
  by_cases hcenturies : centuries < 3
  · have hnext : yearOf cycles centuries 24 3 + 1 = yearOf cycles (centuries + 1) 0 0 := by
      simp only [yearOf]
      omega
    rw [hnext, daysBeforeYear_parts cycles hcenturies (by omega) (by omega), if_neg (by omega)]
    omega
  obtain rfl : centuries = 3 := by omega
  have hnext : yearOf cycles 3 24 3 + 1 = yearOf (cycles + 1) 0 0 0 := by
    simp only [yearOf]
    omega
  rw [hnext, daysBeforeYear_parts (cycles + 1) (by omega) (by omega) (by omega),
    if_pos ⟨rfl, .inr rfl⟩]
  omega

theorem daysBeforeYear_mono {m n : Nat} (hm : 1 ≤ m) (h : m ≤ n) :
    daysBeforeYear m ≤ daysBeforeYear n := by
  induction n, h using Nat.le_induction with
  | base => exact Nat.le_refl _
  | succ n hn ih =>
    rw [daysBeforeYear_succ (Nat.le_trans hm hn)]
    omega

/-- The number of days before the year 10000. -/
theorem daysBeforeYear_end : daysBeforeYear 10000 = 3652059 := by decide

/-- A date lies in its year. -/
theorem dayNumber_lt {d : Date} (h : d.isValid = true) : d.dayNumber < 3652059 := by
  simp only [Date.isValid, Bool.and_eq_true, decide_eq_true_eq] at h
  obtain ⟨⟨⟨⟨⟨hyear, hyear'⟩, hmonth⟩, hmonth'⟩, hday⟩, hday'⟩ := h
  have hnext := daysBeforeMonth_succ d.year hmonth
  have hmonths := daysBeforeMonth_mono d.year (m := d.month + 1) (by omega) (Nat.succ_le_succ hmonth')
  rw [daysBeforeMonth_thirteen] at hmonths
  have hyears := daysBeforeYear_mono (m := d.year + 1) (by omega) (Nat.succ_le_succ hyear')
  rw [daysBeforeYear_succ hyear, daysBeforeYear_end] at hyears
  simp only [Date.dayNumber]
  omega

/-- What a day number leaves over behind its whole years is a day of the year
that it leads to. -/
theorem ofDayNumber_parts (n : Nat) :
    ∃ cycles centuries fours years day, n = 146097 * cycles + 36524 * centuries + 1461 * fours
        + 365 * years + day ∧
      centuries ≤ 3 ∧ fours ≤ 24 ∧ years ≤ 3 ∧
      day < daysInYear (yearOf cycles centuries fours years) ∧
      Date.ofDayNumber n
        = Date.ofDayOfYear (yearOf cycles centuries fours years) 11 1 day := by
  let cycles := n / 146097
  let inCycle := n % 146097
  let centuries := min 3 (inCycle / 36524)
  let inCentury := inCycle - centuries * 36524
  let fours := inCentury / 1461
  let inFour := inCentury % 1461
  let years := min 3 (inFour / 365)
  refine ⟨cycles, centuries, fours, years, inFour - years * 365, ?_, ?_, ?_, ?_, ?_, rfl⟩
  · omega
  · omega
  · omega
  · omega
  · rw [daysInYear_yearOf cycles (by omega) (by omega) (by omega)]
    split <;> omega

/-- The date of a day number before the year 10000 is one of the calendar. -/
theorem isValid_ofDayNumber {n : Nat} (h : n < 3652059) : (Date.ofDayNumber n).isValid = true := by
  obtain ⟨cycles, centuries, fours, years, day, hn, hc, hf, hy, hday, hdate⟩ := ofDayNumber_parts n
  obtain ⟨hyear, hmonth, hin, _⟩ := ofDayOfYear_spec (yearOf cycles centuries fours years) 11 1 day
    (by decide) (by decide) (by simpa [daysBeforeMonth] using hday)
  rw [hdate]
  simp only [Date.isValid, Bool.and_eq_true, decide_eq_true_eq, hyear]
  have hpos : 1 ≤ yearOf cycles centuries fours years := by
    simp only [yearOf]
    omega
  have hlast : yearOf cycles centuries fours years ≤ 9999 := by
    simp only [yearOf]
    omega
  exact ⟨⟨⟨⟨⟨hpos, hlast⟩, hmonth.1⟩, hmonth.2⟩, hin.1⟩, hin.2⟩

/-- A date goes back to the day number that it was made from. -/
theorem dayNumber_ofDayNumber (n : Nat) : (Date.ofDayNumber n).dayNumber = n := by
  obtain ⟨cycles, centuries, fours, years, day, hn, hc, hf, hy, hday, hdate⟩ := ofDayNumber_parts n
  obtain ⟨hyear, _, _, hsum⟩ := ofDayOfYear_spec (yearOf cycles centuries fours years) 11 1 day
    (by decide) (by decide) (by simpa [daysBeforeMonth] using hday)
  have hone : daysBeforeMonth (yearOf cycles centuries fours years) 1 = 0 := rfl
  rw [hdate, Date.dayNumber, hyear, daysBeforeYear_parts cycles hc hf hy]
  rw [hone] at hsum
  omega

end CodeHabits.Time
