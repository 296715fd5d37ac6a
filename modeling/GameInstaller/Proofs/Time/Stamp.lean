import GameInstaller.Proofs.Text.Padded
import GameInstaller.Proofs.Time.Calendar
import GameInstaller.Time.Stamp
import Mathlib.Data.String.Basic

/-!
# Stamps

What the stamp of a count of seconds says.  It is the text of one moment alone, and that moment counts
back to the seconds; up to the end of the year 9999 stamps have one length and the order of the
seconds.

The computation is in machine words: seconds are a word of 64 bits, the steps to the date are words of
64 bits with a sign, and month and day end in 32 bits.  Every step is checked to fit its word, and of no
count of seconds does one overflow.

* `signed?`, `unsigned?`    a result, if its word holds it
* `civilInWords?`           the date of a day, step by step
* `stampInWords?`           the stamp of a count of seconds
* `Moment`, `Moment.Valid`  a date and a time of day, and one that exists
* `Moment.seconds`          how many seconds it lies after the start of 1970
* `Moment.text`             how it is written

## Key results

- `civilInWords?_eq`: every step fits, and the date is that of `civilOfDays`
- `stampInWords?_eq`: so is the stamp
- `Moment.ofSeconds_spec`: the moment of a count of seconds exists, and counts back to it
- `Moment.Valid.row_lt_iff`: moments come in the order of their numbers
- `stamp_account`: a stamp denotes its seconds, in machine words too, and has their order
-/

namespace GameInstaller.Time

/-! ## Machine words -/

/-- A result in 64 bits with a sign, if they hold it. -/
def signed? (n : Int) : Option Int := if -2 ^ 63 ≤ n ∧ n < 2 ^ 63 then some n else none

/-- A result in 32 bits without sign, if they hold it. -/
def unsigned? (n : Int) : Option Nat := if 0 ≤ n ∧ n < 2 ^ 32 then some n.toNat else none

/-- The year of an era that a day of it lies in. -/
def yearInWords? (day : Int) : Option Int := do
  let four ← signed? (day.tdiv 1460)
  let century ← signed? (day.tdiv 36524)
  let last ← signed? (day.tdiv 146096)
  let common ← signed? (day - four)
  let common ← signed? (common + century)
  let common ← signed? (common - last)
  signed? (common.tdiv 365)

/-- The day of an era on which a year of it starts. -/
def startInWords? (year : Int) : Option Int := do
  let days ← signed? (365 * year)
  let leap ← signed? (year.tdiv 4)
  let noLeap ← signed? (year.tdiv 100)
  let days ← signed? (days + leap)
  signed? (days - noLeap)

/-- Month and day of a day of a year that starts in March. -/
def monthInWords? (day : Int) : Option (Nat × Nat) := do
  let fifths ← signed? (5 * day)
  let fifths ← signed? (fifths + 2)
  let march ← signed? (fifths.tdiv 153)
  let start ← signed? (153 * march)
  let start ← signed? (start + 2)
  let start ← signed? (start.tdiv 5)
  let day ← signed? (day - start)
  let day ← signed? (day + 1)
  let day ← unsigned? day
  let month ← signed? (if march < 10 then march + 3 else march - 9)
  let month ← unsigned? month
  pure (month, day)

/-- Year, month and day of a number of days after 1970-01-01.  The division into eras rounds down, all
    others cut off. -/
def civilInWords? (days : Int) : Option (Int × Nat × Nat) := do
  let z ← signed? (days + 719468)
  let era ← signed? (z / 146097)
  let dayOfEra ← signed? (z % 146097)
  let year ← yearInWords? dayOfEra
  let start ← startInWords? year
  let dayOfYear ← signed? (dayOfEra - start)
  let (month, day) ← monthInWords? dayOfYear
  let years ← signed? (era * 400)
  let year ← signed? (year + years)
  let year ← signed? (year + if month ≤ 2 then 1 else 0)
  pure (year, month, day)

/-- The stamp of a count of seconds. -/
def stampInWords? (secs : UInt64) : Option String := do
  let days ← signed? (secs / 86400).toNat
  let (year, month, day) ← civilInWords? days
  let tod := secs % 86400
  pure (Text.decimalPadded 4 year.toNat ++ "-" ++ Text.decimalPadded 2 month ++ "-"
    ++ Text.decimalPadded 2 day ++ "T" ++ Text.decimalPadded 2 (tod / 3600).toNat ++ ":"
    ++ Text.decimalPadded 2 (tod % 3600 / 60).toNat ++ ":" ++ Text.decimalPadded 2 (tod % 60).toNat
    ++ "Z")

/-! ## One step -/

variable {α : Type}

theorem signed?_eq {i : Int} (n : Nat) (hi : i = n) (hn : n < 2 ^ 63) : signed? i = some ↑n := by
  rw [signed?, if_pos (by omega), hi]

theorem signed?_bind {i : Int} (n : Nat) (f : Int → Option α) (hi : i = n) (hn : n < 2 ^ 63) :
    (signed? i >>= f) = f n := by
  rw [signed?_eq n hi hn]
  rfl

theorem unsigned?_bind (n : Nat) (f : Nat → Option α) (hn : n < 2 ^ 32) :
    (unsigned? n >>= f) = f n := by
  rw [unsigned?, if_pos (by omega), Int.toNat_natCast]
  rfl

/-! ## The parts of a date -/

theorem yearInWords?_eq {day : Nat} (h : day < 146097) :
    yearInWords? day = some ↑(yearOfEra day) := by
  -- No difference is below zero, so that each step is the one on natural numbers.
  have hfour := Nat.div_le_self day 1460
  have hcentury : day / 36524 ≤ 4 := by omega
  have hlast : day / 146096 ≤ day - day / 1460 + day / 36524 := by omega
  have hyear := Nat.div_le_self (commonDays day) 365
  unfold yearInWords?
  refine (signed?_bind (day / 1460) _ rfl (by omega)).trans ?_
  refine (signed?_bind (day / 36524) _ rfl (by omega)).trans ?_
  refine (signed?_bind (day / 146096) _ rfl (by omega)).trans ?_
  refine (signed?_bind (day - day / 1460) _ (Int.ofNat_sub hfour).symm (by omega)).trans ?_
  refine (signed?_bind (day - day / 1460 + day / 36524) _ rfl (by omega)).trans ?_
  refine (signed?_bind (commonDays day) _ (Int.ofNat_sub hlast).symm ?_).trans ?_
  · unfold commonDays
    omega
  · refine signed?_eq (yearOfEra day) rfl (Nat.lt_of_le_of_lt hyear ?_)
    unfold commonDays
    omega

theorem startInWords?_eq {year : Nat} (h : year < 400) :
    startInWords? year = some ↑(yearStart year) := by
  have hless := Nat.div_le_self year 100
  have hstart : yearStart year = 365 * year + year / 4 - year / 100 := by
    rw [yearStart, Nat.div_eq_of_lt h, Nat.add_zero]
  rw [hstart]
  unfold startInWords?
  refine (signed?_bind (365 * year) _ rfl (by omega)).trans ?_
  refine (signed?_bind (year / 4) _ rfl (by omega)).trans ?_
  refine (signed?_bind (year / 100) _ rfl (by omega)).trans ?_
  refine (signed?_bind (365 * year + year / 4) _ rfl (by omega)).trans ?_
  exact signed?_eq _ (Int.ofNat_sub (by omega)).symm (by omega)

theorem monthInWords?_eq (year : Nat) {day : Nat} (h : day < 366) :
    monthInWords? day = some ((CivilDate.ofMarch year day).month, (CivilDate.ofMarch year day).day) := by
  obtain ⟨m, hm⟩ : ∃ m, (5 * day + 2) / 153 = m := ⟨_, rfl⟩
  have hstart : (153 * m + 2) / 5 ≤ day := by omega
  have hmonth : (if (m : Int) < 10 then (m : Int) + 3 else m - 9) =
      ↑(if m < 10 then m + 3 else m - 9) := by
    split_ifs <;> omega
  unfold monthInWords?
  refine (signed?_bind (5 * day) _ rfl (by omega)).trans ?_
  refine (signed?_bind (5 * day + 2) _ rfl (by omega)).trans ?_
  refine (signed?_bind m _ (congrArg Nat.cast hm) (by omega)).trans ?_
  refine (signed?_bind (153 * m) _ rfl (by omega)).trans ?_
  refine (signed?_bind (153 * m + 2) _ rfl (by omega)).trans ?_
  refine (signed?_bind ((153 * m + 2) / 5) _ rfl (by omega)).trans ?_
  refine (signed?_bind (day - (153 * m + 2) / 5) _ (Int.ofNat_sub hstart).symm (by omega)).trans ?_
  refine (signed?_bind (day - (153 * m + 2) / 5 + 1) _ rfl (by omega)).trans ?_
  refine (unsigned?_bind _ _ (by omega)).trans ?_
  refine (signed?_bind _ _ hmonth (by split <;> omega)).trans ?_
  refine (unsigned?_bind _ _ (by split <;> omega)).trans ?_
  simp only [CivilDate.ofMarch, hm, Option.pure_def]

/-! ## The date and the stamp -/

/-- Every step to the date of a day fits its word. -/
theorem civilInWords?_eq {days : Nat} (h : days < 2 ^ 48) :
    civilInWords? days =
      some (↑(civilOfDays days).year, (civilOfDays days).month, (civilOfDays days).day) := by
  obtain ⟨day, hday⟩ : ∃ day, (days + 719468) % 146097 = day := ⟨_, rfl⟩
  obtain ⟨era, hera⟩ : ∃ era, (days + 719468) / 146097 = era := ⟨_, rfl⟩
  obtain ⟨y, hy⟩ : ∃ y, yearOfEra day = y := ⟨_, rfl⟩
  have hlt : day < 146097 := hday ▸ Nat.mod_lt _ (by decide)
  have hfew : era ≤ days + 719468 := hera ▸ Nat.div_le_self _ _
  obtain ⟨hyear, hstart, hend⟩ := yearOfEra_spec hlt hy
  have hlength := yearStart_succ y
  have hleap := leapDays_le_one (y + 1)
  rw [civilOfDays_eq days hday hera hy]
  unfold civilInWords?
  refine (signed?_bind (days + 719468) _ rfl (by omega)).trans ?_
  refine (signed?_bind era _ (congrArg Nat.cast hera) (by omega)).trans ?_
  refine (signed?_bind day _ (congrArg Nat.cast hday) (by omega)).trans ?_
  rw [yearInWords?_eq hlt, hy, Option.bind_eq_bind, Option.bind_some, startInWords?_eq hyear,
    Option.bind_eq_bind, Option.bind_some]
  refine (signed?_bind (day - yearStart y) _ (Int.ofNat_sub hstart).symm (by omega)).trans ?_
  rw [monthInWords?_eq (y + era * 400) (by omega), Option.bind_some]
  refine (signed?_bind (era * 400) _ rfl (by omega)).trans ?_
  refine (signed?_bind (y + era * 400) _ rfl (by omega)).trans ?_
  have hmarch : (CivilDate.ofMarch (y + era * 400) (day - yearStart y)).year =
      y + era * 400 + if (CivilDate.ofMarch (y + era * 400) (day - yearStart y)).month ≤ 2 then 1
        else 0 := rfl
  refine (signed?_bind (CivilDate.ofMarch (y + era * 400) (day - yearStart y)).year _ ?_ ?_).trans rfl
  · rw [hmarch]
    split_ifs <;> rfl
  · rw [hmarch]
    split_ifs <;> omega

/-- Every step to the stamp of a count of seconds fits its word. -/
theorem stampInWords?_eq (secs : UInt64) : stampInWords? secs = some (stamp secs.toNat) := by
  have hsecs := secs.toNat_lt
  unfold stampInWords?
  -- The days of a word of seconds are far below the bound of the date.
  refine (signed?_bind (secs.toNat / 86400) _ rfl (by omega)).trans ?_
  rw [civilInWords?_eq (by omega), Option.bind_eq_bind, Option.bind_some]
  rfl

/-! ## Moments -/

/-- A date and a time of day. -/
structure Moment where
  date : CivilDate
  hour : Nat
  minute : Nat
  second : Nat
  deriving DecidableEq, Repr

namespace Moment

/-- A moment of a day that the calendar has. -/
structure Valid (m : Moment) : Prop where
  date : m.date.Valid
  hour : m.hour < 24
  minute : m.minute < 60
  second : m.second < 60

/-- How many seconds a moment lies after the start of 1970. -/
def seconds (m : Moment) : Nat :=
  m.date.dayNumber * 86400 + m.hour * 3600 + m.minute * 60 + m.second

/-- The moment of a count of seconds. -/
def ofSeconds (secs : Nat) : Moment :=
  ⟨civilOfDays (secs / 86400), secs % 86400 / 3600, secs % 86400 % 3600 / 60, secs % 86400 % 60⟩

/-- The moment of a count of seconds exists, and counts back to it. -/
theorem ofSeconds_spec (secs : Nat) : (ofSeconds secs).Valid ∧ (ofSeconds secs).seconds = secs := by
  obtain ⟨hdate, hdays⟩ := civilOfDays_spec (secs / 86400)
  refine ⟨⟨hdate, ?_, ?_, ?_⟩, ?_⟩
  · exact Nat.div_lt_of_lt_mul (Nat.mod_lt _ (by decide))
  · exact Nat.div_lt_of_lt_mul (Nat.mod_lt _ (by decide))
  · exact Nat.mod_lt _ (by decide)
  · simp only [seconds, ofSeconds, hdays]
    omega

/-! ## Their texts -/

/-- The widths of the numbers of a moment, and what is written behind them. -/
def layout : Text.Layout := [(4, '-'), (2, '-'), (2, 'T'), (2, ':'), (2, ':'), (2, 'Z')]

/-- The numbers of a moment, from the year to the second. -/
def row (m : Moment) : List Nat :=
  [m.date.year, m.date.month, m.date.day, m.hour, m.minute, m.second]

/-- How a moment is written. -/
def text (m : Moment) : String := String.ofList (layout.write m.row)

theorem row_injective : Function.Injective row := by
  rintro ⟨⟨_, _, _⟩, _, _, _⟩ ⟨⟨_, _, _⟩, _, _, _⟩ h
  simp_all [row]

/-- A text is that of one moment alone. -/
theorem text_injective : Function.Injective text := fun _ _ h =>
  row_injective (Text.Layout.write_injective (by decide) rfl rfl (String.ofList_injective h))

theorem text_ofSeconds (secs : Nat) : (ofSeconds secs).text = stamp secs := by
  apply String.toList_inj.mp
  simp only [text, stamp, String.toList_append, String.toList_ofList, Text.decimalPadded_toList,
    layout, row, ofSeconds, Text.Layout.write, List.append_assoc]
  rfl

/-! ## Their order -/

variable {m m' : Moment}

/-- The numbers of a moment are in order as its date is, and on one day as its time is. -/
theorem row_lt_row (m m' : Moment) : m.row < m'.row ↔ m.date.Before m'.date ∨
    m.date = m'.date ∧ (m.hour < m'.hour ∨ m.hour = m'.hour ∧
      (m.minute < m'.minute ∨ m.minute = m'.minute ∧ m.second < m'.second)) := by
  obtain ⟨⟨year, month, day⟩, hour, minute, second⟩ := m
  obtain ⟨⟨year', month', day'⟩, hour', minute', second'⟩ := m'
  simp only [row, List.cons_lt_cons_iff, CivilDate.Before, CivilDate.mk.injEq, List.not_lt_nil,
    and_false, or_false]
  tauto

/-- Moments come in the order of their numbers. -/
theorem Valid.row_lt_iff (h : m.Valid) (h' : m'.Valid) :
    m.row < m'.row ↔ m.seconds < m'.seconds := by
  have hdays := h.date.dayNumber_lt_iff h'.date
  have hdays' := h'.date.dayNumber_lt_iff h.date
  obtain ⟨-, hhour, hminute, hsecond⟩ := h
  obtain ⟨-, hhour', hminute', hsecond'⟩ := h'
  rw [row_lt_row, ← hdays, seconds, seconds]
  -- The time of a day is less than a day, so that on different days it does not count.
  rcases CivilDate.before_trichotomy m.date m'.date with hbefore | heq | hafter
  · have hlt := hdays.mpr hbefore
    omega
  · rw [heq]
    simp only [lt_self_iff_false, true_and, false_or]
    omega
  · have hlt := hdays'.mpr hafter
    have hne : m.date ≠ m'.date := fun heq => absurd hlt (heq ▸ Nat.lt_irrefl _)
    simp only [hne, false_and, or_false]
    omega

/-! ## Four digits of the year -/

/-- The first moment whose year has five digits. -/
def fiveDigits : Moment := ⟨⟨10000, 1, 1⟩, 0, 0, 0⟩

theorem fiveDigits_valid : fiveDigits.Valid := by
  refine ⟨⟨?_, ?_, ?_⟩, ?_, ?_, ?_⟩ <;> decide

/-- Before the year 10000 the numbers of a moment fit their widths. -/
theorem Valid.fits (h : m.Valid) (hlt : m.seconds < fiveDigits.seconds) : layout.Fits m.row := by
  have hyear : m.date.year < 10000 := by
    -- Behind the first of January, and behind midnight, nothing comes first.
    rcases (row_lt_row _ _).mp ((h.row_lt_iff fiveDigits_valid).mpr hlt) with
      (hyear | ⟨-, hmonth | ⟨-, hday⟩⟩) | ⟨-, hhour | ⟨-, hminute | ⟨-, hsecond⟩⟩⟩
    · exact hyear
    · exact absurd h.date.month.1 (Nat.not_le.mpr hmonth)
    · exact absurd h.date.day.1 (Nat.not_le.mpr hday)
    · exact absurd hhour (Nat.not_lt_zero _)
    · exact absurd hminute (Nat.not_lt_zero _)
    · exact absurd hsecond (Nat.not_lt_zero _)
  have hmonth := h.date.month.2
  have hday : m.date.day ≤ 31 := h.date.day.2.trans (monthLength_le _ _)
  have htime := h.hour
  have htime' := h.minute
  have htime'' := h.second
  simp only [Text.Layout.Fits, layout, row, List.forall₂_cons, List.Forall₂.nil, and_true]
  omega

end Moment

open Moment

/-- What is promised of the stamp of a count of seconds. -/
structure StampAccount (secs : UInt64) : Prop where
  /-- It is the text of one moment, which exists and counts back to the seconds. -/
  denotes : ∃ m : Moment, m.Valid ∧ m.seconds = secs.toNat ∧
    ∀ m' : Moment, m'.text = stamp secs.toNat ↔ m' = m
  /-- In machine words every step to it fits. -/
  words : stampInWords? secs = some (stamp secs.toNat)
  /-- Before the year 10000 it has 20 characters … -/
  length : secs.toNat < fiveDigits.seconds → (stamp secs.toNat).length = 20
  /-- … and the order of the seconds. -/
  order : ∀ secs' : UInt64, secs.toNat < fiveDigits.seconds → secs'.toNat < fiveDigits.seconds →
    (stamp secs.toNat < stamp secs'.toNat ↔ secs < secs')

/-- A stamp denotes its seconds, and has their order. -/
theorem stamp_account (secs : UInt64) : StampAccount secs where
  denotes := by
    obtain ⟨hvalid, hseconds⟩ := ofSeconds_spec secs.toNat
    refine ⟨ofSeconds secs.toNat, hvalid, hseconds, fun m' => ?_⟩
    rw [← text_ofSeconds, text_injective.eq_iff]
  words := stampInWords?_eq secs
  length hlt := by
    obtain ⟨hvalid, hseconds⟩ := ofSeconds_spec secs.toNat
    rw [← text_ofSeconds, text, String.length_ofList]
    exact Text.Layout.length_write (hvalid.fits (by rwa [hseconds]))
  order secs' hlt hlt' := by
    obtain ⟨hvalid, hseconds⟩ := ofSeconds_spec secs.toNat
    obtain ⟨hvalid', hseconds'⟩ := ofSeconds_spec secs'.toNat
    rw [← text_ofSeconds, ← text_ofSeconds, text, text, String.lt_iff_toList_lt,
      String.toList_ofList, String.toList_ofList,
      Text.Layout.write_lt_iff (hvalid.fits (by rwa [hseconds]))
        (hvalid'.fits (by rwa [hseconds'])),
      hvalid.row_lt_iff hvalid', hseconds, hseconds', UInt64.lt_iff_toNat_lt]

/-- The last second of the year 9999. -/
example : stamp 253402300799 = "9999-12-31T23:59:59Z" := by decide +kernel

end GameInstaller.Time
