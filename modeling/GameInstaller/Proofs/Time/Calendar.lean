import GameInstaller.Time.Stamp
import Mathlib.Tactic.IntervalCases
import Mathlib.Tactic.Linarith

/-!
# The calendar

Dates of the proleptic Gregorian calendar are counted here from the lengths of its months, month by
month and year by year from 1970-01-01.  `civilOfDays` computes a date without counting; it names
the day that counting leads to.

* `isLeap`, `monthLength`  the rules of the calendar
* `CivilDate.Valid`        a day that the calendar has
* `CivilDate.dayNumber`    how many days it lies after 1970-01-01
* `CivilDate.Before`       the order in which dates are written

## Key results

- `civilOfDays_spec`: the date of a day is valid, and counts back to it
- `CivilDate.Valid.dayNumber_lt_iff`: days come in the order of their dates
-/

namespace GameInstaller.Time

/-! ## The rules -/

/-- Whether a year has a leap day: every fourth has, except for centuries that 400 does not
    divide. -/
def isLeap (year : Nat) : Bool := year % 4 = 0 ∧ (year % 100 ≠ 0 ∨ year % 400 = 0)

/-- The days that a leap day adds to a year. -/
def leapDays (year : Nat) : Nat := if isLeap year then 1 else 0

/-- The days of a month. -/
def monthLength (year : Nat) : Nat → Nat
  | 2 => 28 + leapDays year
  | 4 => 30
  | 6 => 30
  | 9 => 30
  | 11 => 30
  | _ => 31

theorem leapDays_le_one (year : Nat) : leapDays year ≤ 1 := by
  unfold leapDays
  split <;> decide

theorem monthLength_le (year month : Nat) : monthLength year month ≤ 31 := by
  unfold monthLength
  split
  · have hleap := leapDays_le_one year
    omega
  all_goals decide

/-- The days of the first months of a year. -/
def daysOfMonths (year : Nat) : Nat → Nat
  | 0 => 0
  | n + 1 => daysOfMonths year n + monthLength year (n + 1)

/-- The days of the first years from 1970 on. -/
def daysOfYears : Nat → Nat
  | 0 => 0
  | n + 1 => daysOfYears n + daysOfMonths (1970 + n) 12

namespace CivilDate

/-- A day that the calendar has, not before 1970. -/
structure Valid (d : CivilDate) : Prop where
  year : 1970 ≤ d.year
  month : 1 ≤ d.month ∧ d.month ≤ 12
  day : 1 ≤ d.day ∧ d.day ≤ monthLength d.year d.month

/-- How many days a date lies after 1970-01-01, counted by the lengths of the months. -/
def dayNumber (d : CivilDate) : Nat :=
  daysOfYears (d.year - 1970) + daysOfMonths d.year (d.month - 1) + (d.day - 1)

/-- Dates in the order in which they are written: by year, then month, then day. -/
def Before (d d' : CivilDate) : Prop :=
  d.year < d'.year ∨
    d.year = d'.year ∧ (d.month < d'.month ∨ d.month = d'.month ∧ d.day < d'.day)

end CivilDate

/-! ## Counting in closed form -/

/-- Of every four years one has a leap day, but for three centuries of an era. -/
theorem leapDays_succ (n : Nat) :
    leapDays (n + 1) + (n + 1) / 100 + n / 4 + n / 400 =
      (n + 1) / 4 + n / 100 + (n + 1) / 400 := by
  have hcentury : 100 ∣ n + 1 → 4 ∣ n + 1 := Nat.dvd_trans (by norm_num)
  have hera : 400 ∣ n + 1 → 100 ∣ n + 1 := Nat.dvd_trans (by norm_num)
  unfold leapDays isLeap
  -- A quotient grows exactly where the next year is divided, so the divisors settle each case.
  simp only [← Nat.dvd_iff_mod_eq_zero, decide_eq_true_eq, Nat.succ_div]
  split_ifs <;> omega

/-- The days before a month; from March on the months of 31 and 30 days follow a straight line. -/
theorem daysOfMonths_eq (year month : Nat) (h : 1 ≤ month ∧ month ≤ 12) :
    daysOfMonths year (month - 1) =
      if month ≤ 2 then 31 * (month - 1) else 59 + leapDays year + (153 * (month - 3) + 2) / 5 := by
  obtain ⟨hlow, hhigh⟩ := h
  interval_cases month <;> simp [daysOfMonths, monthLength] <;> omega

theorem daysOfMonths_twelve (year : Nat) : daysOfMonths year 12 = 365 + leapDays year := by
  have hdecember := daysOfMonths_eq year 12 ⟨by omega, by omega⟩
  rw [if_neg (by omega)] at hdecember
  rw [daysOfMonths, hdecember]
  simp only [monthLength]
  omega

/-! ## Years that start in March -/

/-- The days from 0000-03-01 to the first of March of a year. -/
def yearStart (year : Nat) : Nat := 365 * year + year / 4 - year / 100 + year / 400

theorem yearStart_eq (year : Nat) :
    yearStart year + year / 100 = 365 * year + year / 4 + year / 400 := by
  -- Nothing is lost in the subtraction, there being fewer centuries than years.
  have hless := Nat.div_le_self year 100
  unfold yearStart
  generalize year / 100 = c at *
  omega

theorem yearStart_succ (n : Nat) : yearStart (n + 1) = yearStart n + 365 + leapDays (n + 1) := by
  linarith only [yearStart_eq n, yearStart_eq (n + 1), leapDays_succ n]

theorem yearStart_mono : Monotone yearStart := by
  refine monotone_nat_of_le_succ fun n => ?_
  rw [yearStart_succ, Nat.add_assoc]
  exact Nat.le_add_right _ _

/-- The calendar repeats every 400 years. -/
theorem yearStart_era (y era : Nat) : yearStart (y + 400 * era) = yearStart y + 146097 * era := by
  have hfour : (y + 400 * era) / 4 = y / 4 + 100 * era := by omega
  have hcentury : (y + 400 * era) / 100 = y / 100 + 4 * era := by omega
  have hera : (y + 400 * era) / 400 = y / 400 + era := by omega
  have hstart := yearStart_eq (y + 400 * era)
  rw [hfour, hcentury, hera] at hstart
  linarith only [hstart, yearStart_eq y]

/-- The days before a year are those to the first of March of the one before it, without the days
    from 0000-03-01 to 1970 and the ten months in between. -/
theorem daysOfYears_eq {year : Nat} (h : 1969 ≤ year) :
    daysOfYears (year - 1969) + 719162 = yearStart year := by
  induction year, h using Nat.le_induction with
  | base => rfl
  | succ year h ih =>
    have hnext : 1970 + (year - 1969) = year + 1 := by
      rw [Nat.succ_add, Nat.add_sub_cancel' h]
    rw [Nat.succ_sub h, daysOfYears, daysOfMonths_twelve, yearStart_succ, hnext, ← ih]
    exact Nat.add_right_comm _ _ _ |>.trans (Nat.add_assoc _ _ _).symm

/-! ## The year of a day -/

/-- A day of an era, less the leap days before it. -/
def commonDays (day : Nat) : Nat := day - day / 1460 + day / 36524 - day / 146096

theorem commonDays_mono : Monotone commonDays := by
  refine monotone_nat_of_le_succ fun n => ?_
  have hless := Nat.div_le_self n 1460
  unfold commonDays
  rw [Nat.succ_div, Nat.succ_div, Nat.succ_div]
  -- A day more is at most one leap day more; where the last quotient grows, so does the one before.
  have hstep {a b c i j k : Nat} (ha : a ≤ n) (hi : i ≤ 1) (hk : k ≤ j) :
      n - a + b - c ≤ n + 1 - (a + i) + (b + j) - (c + k) := by omega
  refine hstep hless ?_ ?_
  · split <;> decide
  · have hcentury : 146096 ∣ n + 1 → 36524 ∣ n + 1 := Nat.dvd_trans (by norm_num)
    split_ifs with hera hlast
    · exact Nat.le_refl 1
    · exact absurd (hcentury hera) hlast
    · exact Nat.zero_le 1
    · exact Nat.le_refl 0

/-- Each year of an era starts where its common days do, and ends before those of the next. -/
theorem commonDays_yearStart : ∀ y < 400,
    365 * y ≤ commonDays (yearStart y) ∧ commonDays (yearStart (y + 1) - 1) < 365 * (y + 1) := by
  decide +kernel

/-- The year of an era that a day of it lies in. -/
def yearOfEra (day : Nat) : Nat := commonDays day / 365

theorem yearOfEra_spec {day y : Nat} (h : day < 146097) (hy : yearOfEra day = y) :
    y < 400 ∧ yearStart y ≤ day ∧ day < yearStart (y + 1) := by
  unfold yearOfEra at hy
  have hlast : commonDays day ≤ 145999 := commonDays_mono (show day ≤ 146096 by omega)
  have hyear : y < 400 := by omega
  -- A day outside of the year would have the common days of another year.
  refine ⟨hyear, ?_, ?_⟩
  · by_contra hbefore
    obtain ⟨x, rfl⟩ : ∃ x, y = x + 1 := by
      refine Nat.exists_eq_succ_of_ne_zero fun hzero => hbefore ?_
      rw [hzero]
      exact Nat.zero_le day
    have hend := (commonDays_yearStart x (by omega)).2
    have hday := commonDays_mono (show day ≤ yearStart (x + 1) - 1 by omega)
    omega
  · by_contra hafter
    have hday := commonDays_mono (not_lt.mp hafter)
    rcases Nat.lt_or_ge (y + 1) 400 with hnext | hlater
    · have hstart := (commonDays_yearStart (y + 1) hnext).1
      omega
    · -- The last year of an era has no year behind it, but ends with the era.
      obtain rfl : y = 399 := by omega
      exact hafter h

/-! ## The month of a day -/

namespace CivilDate

/-- The date of a day of a year that starts in March. -/
def ofMarch (year day : Nat) : CivilDate :=
  let marchMonth := (5 * day + 2) / 153
  let month := if marchMonth < 10 then marchMonth + 3 else marchMonth - 9
  ⟨year + (if month ≤ 2 then 1 else 0), month, day - (153 * marchMonth + 2) / 5 + 1⟩

/-- January and February come at the end of such a year, and are those of the next. -/
theorem ofMarch_cases {year day : Nat} {d : CivilDate} (h : day < 365 + leapDays (year + 1))
    (hd : d = ofMarch year day) :
    (1 ≤ d.day ∧ d.day ≤ monthLength d.year d.month) ∧
      ((d.year = year ∧ day < 306 ∧ 3 ≤ d.month ∧ d.month ≤ 12 ∧
          (153 * (d.month - 3) + 2) / 5 + d.day = day + 1) ∨
        (d.year = year + 1 ∧ 1 ≤ d.month ∧ d.month ≤ 2 ∧
          306 + 31 * (d.month - 1) + d.day = day + 1)) := by
  subst hd
  have hleap := leapDays_le_one (year + 1)
  obtain ⟨m, hm⟩ : ∃ m, (5 * day + 2) / 153 = m := ⟨_, rfl⟩
  have hbound : m < 12 := by omega
  -- For each of the twelve months the lengths are numbers, but for the leap day.
  simp only [ofMarch, hm]
  interval_cases m <;> simp [monthLength] <;> omega

end CivilDate

/-! ## The date of a day -/

/-- The date of a day, by the year from March on that the day lies in. -/
theorem civilOfDays_eq (days : Nat) {day era y : Nat} (hday : (days + epochOffset) % daysPerEra = day)
    (hera : (days + epochOffset) / daysPerEra = era) (hy : yearOfEra day = y) :
    civilOfDays days = .ofMarch (y + era * 400) (day - yearStart y) := by
  have hyear := (yearOfEra_spec (hday ▸ Nat.mod_lt _ (by decide)) hy).1
  have hstart : 365 * y + y / 4 - y / 100 = yearStart y := by
    rw [yearStart, Nat.div_eq_of_lt hyear, Nat.add_zero]
  unfold civilOfDays
  simp only [hday, hera]
  rw [show (day - day / 1460 + day / 36524 - day / 146096) / 365 = y from hy, hstart,
    CivilDate.ofMarch]

/-- A day lies in the year from March on that its date is found by. -/
theorem exists_ofMarch (days : Nat) : ∃ year day, days + epochOffset = yearStart year + day ∧
    day < 365 + leapDays (year + 1) ∧ civilOfDays days = .ofMarch year day := by
  obtain ⟨day, hday⟩ : ∃ day, (days + epochOffset) % daysPerEra = day := ⟨_, rfl⟩
  obtain ⟨era, hera⟩ : ∃ era, (days + epochOffset) / daysPerEra = era := ⟨_, rfl⟩
  obtain ⟨y, hy⟩ : ∃ y, yearOfEra day = y := ⟨_, rfl⟩
  have hsplit : days + epochOffset = day + 146097 * era := by
    rw [← hday, ← hera]
    exact (Nat.mod_add_div _ _).symm
  obtain ⟨-, hstart, hend⟩ := yearOfEra_spec (hday ▸ Nat.mod_lt _ (by decide)) hy
  refine ⟨y + era * 400, day - yearStart y, ?_, ?_, civilOfDays_eq days hday hera hy⟩
  · rw [Nat.mul_comm, yearStart_era]
    omega
  · have hnext := yearStart_succ (y + 400 * era)
    rw [yearStart_era, Nat.add_right_comm, yearStart_era] at hnext
    rw [Nat.mul_comm, Nat.add_right_comm]
    omega

/-- The date of a day is valid, and the day is the one that the date counts. -/
theorem civilOfDays_spec (days : Nat) :
    (civilOfDays days).Valid ∧ (civilOfDays days).dayNumber = days := by
  obtain ⟨year, day, hdays, hday, hdate⟩ := exists_ofMarch days
  generalize civilOfDays days = d at *
  rw [epochOffset] at hdays
  have hepoch : 1969 ≤ year := by
    by_contra hbefore
    have hnext := yearStart_succ year
    have hstart : yearStart (year + 1) ≤ 719162 := yearStart_mono (show year + 1 ≤ 1969 by omega)
    omega
  have hyears := daysOfYears_eq hepoch
  obtain ⟨hofMonth, ⟨hyear, hcommon, hlow, hhigh, hcount⟩ | ⟨hyear, hlow, hhigh, hcount⟩⟩ :=
    CivilDate.ofMarch_cases hday hdate
  · -- From March on the year is the same; the March of 1969 was long before the count starts.
    have hmonths := daysOfMonths_eq d.year d.month ⟨by omega, hhigh⟩
    have hlater : year ≠ 1969 := by
      rintro rfl
      have hstart : yearStart 1969 = 719162 := rfl
      omega
    obtain ⟨before, rfl⟩ : ∃ before, year = before + 1 := ⟨year - 1, by omega⟩
    have hstart := yearStart_succ before
    have hyears' := daysOfYears_eq (show 1969 ≤ before by omega)
    rw [if_neg (by omega), hyear] at hmonths
    refine ⟨⟨by omega, ⟨by omega, hhigh⟩, hofMonth⟩, ?_⟩
    rw [CivilDate.dayNumber, hyear, hmonths, Nat.succ_sub_succ]
    omega
  · -- January and February are in the year that starts two months before the next March.
    have hmonths := daysOfMonths_eq d.year d.month ⟨hlow, by omega⟩
    rw [if_pos hhigh, hyear] at hmonths
    refine ⟨⟨by omega, ⟨hlow, by omega⟩, hofMonth⟩, ?_⟩
    rw [CivilDate.dayNumber, hyear, hmonths, Nat.succ_sub_succ]
    omega

/-! ## The order of dates -/

namespace CivilDate

variable {d d' : CivilDate}

theorem daysOfMonths_mono (year : Nat) : Monotone (daysOfMonths year) :=
  monotone_nat_of_le_succ fun _ => Nat.le_add_right _ _

theorem daysOfYears_mono : Monotone daysOfYears :=
  monotone_nat_of_le_succ fun _ => Nat.le_add_right _ _

/-- A day comes before the end of its month. -/
theorem Valid.day_lt (h : d.Valid) :
    daysOfMonths d.year (d.month - 1) + (d.day - 1) < daysOfMonths d.year d.month := by
  obtain ⟨m, hm⟩ : ∃ m, d.month = m + 1 := ⟨d.month - 1, by have := h.month; omega⟩
  have hday := h.day
  rw [hm, Nat.add_sub_cancel, daysOfMonths, ← hm]
  omega

/-- Dates are written in the order of their days. -/
theorem Valid.dayNumber_lt (h : d.Valid) (hbefore : d.Before d') :
    d.dayNumber < d'.dayNumber := by
  have hday := h.day_lt
  unfold dayNumber
  -- An earlier day lies before the end of its year, or of its month, and the later one behind it.
  rcases hbefore with hyear | ⟨hyear, hmonth | ⟨hmonth, hday'⟩⟩
  · have hmonths := daysOfMonths_mono d.year h.month.2
    have hyears := daysOfYears_mono (show d.year - 1970 + 1 ≤ d'.year - 1970 by have := h.year; omega)
    rw [daysOfYears, Nat.add_sub_cancel' h.year] at hyears
    omega
  · have hmonths := daysOfMonths_mono d.year (show d.month ≤ d'.month - 1 by omega)
    rw [← hyear]
    omega
  · have hfirst := h.day
    rw [← hyear, ← hmonth]
    omega

theorem before_trichotomy (d d' : CivilDate) : d.Before d' ∨ d = d' ∨ d'.Before d := by
  obtain ⟨year, month, day⟩ := d
  obtain ⟨year', month', day'⟩ := d'
  simp only [Before, CivilDate.mk.injEq]
  omega

theorem Valid.dayNumber_lt_iff (h : d.Valid) (h' : d'.Valid) :
    d.dayNumber < d'.dayNumber ↔ d.Before d' := by
  refine ⟨fun hlt => ?_, h.dayNumber_lt⟩
  rcases before_trichotomy d d' with hbefore | rfl | hafter
  · exact hbefore
  · exact absurd hlt (Nat.lt_irrefl _)
  · exact absurd hlt (h'.dayNumber_lt hafter).le.not_gt

end CivilDate

end GameInstaller.Time
