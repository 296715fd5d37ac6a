import GameInstaller.Text.Hex

/-! # Dates and time stamps

Dates of the calendar, and the texts made from them. -/

/-! ## Civil dates

Days since 1970-01-01 as dates of the proleptic Gregorian calendar.  The calendar repeats every
400 years (146 097 days); inside such an era years are counted from March, so that the leap day is
the last day of its year. -/

namespace GameInstaller.Time

/-- A date of the proleptic Gregorian calendar. -/
structure CivilDate where
  year : Nat
  month : Nat
  day : Nat
  deriving DecidableEq, Repr

/-- Days of a 400-year era. -/
def daysPerEra : Nat := 146097

/-- Days from 0000-03-01 to 1970-01-01. -/
def epochOffset : Nat := 719468

/-- The date that lies `days` days after 1970-01-01. -/
def civilOfDays (days : Nat) : CivilDate :=
  let z := days + epochOffset
  let era := z / daysPerEra
  let dayOfEra := z % daysPerEra
  let yearOfEra := (dayOfEra - dayOfEra / 1460 + dayOfEra / 36524 - dayOfEra / 146096) / 365
  let dayOfYear := dayOfEra - (365 * yearOfEra + yearOfEra / 4 - yearOfEra / 100)
  let marchMonth := (5 * dayOfYear + 2) / 153
  let day := dayOfYear - (153 * marchMonth + 2) / 5 + 1
  let month := if marchMonth < 10 then marchMonth + 3 else marchMonth - 9
  let year := yearOfEra + era * 400 + (if month ≤ 2 then 1 else 0)
  ⟨year, month, day⟩

/-! ## Time stamps

Texts made from the wall clock: the UTC stamp `YYYY-MM-DDTHH:MM:SSZ` of journal lines and library
rows, and the short identifier of a run. -/

/-- A reading of the wall clock.  Readings before 1970 count as the start of 1970. -/
structure Instant where
  /-- Whole seconds since 1970. -/
  secs : Nat
  /-- Nanoseconds within the second. -/
  nanos : Nat
  deriving DecidableEq, Repr, Inhabited

/-- The instant of a signed count of seconds, held at 1970 from below. -/
def Instant.ofClock (secs : Int) (nanos : Nat) : Instant :=
  if secs < 0 then ⟨0, 0⟩ else ⟨secs.toNat, nanos⟩

/-- UTC date and time of day, `YYYY-MM-DDTHH:MM:SSZ`; the year has at least four digits. -/
def stamp (secs : Nat) : String :=
  let date := civilOfDays (secs / 86400)
  let tod := secs % 86400
  Text.decimalPadded 4 date.year ++ "-" ++ Text.decimalPadded 2 date.month ++ "-"
    ++ Text.decimalPadded 2 date.day ++ "T" ++ Text.decimalPadded 2 (tod / 3600) ++ ":"
    ++ Text.decimalPadded 2 (tod % 3600 / 60) ++ ":" ++ Text.decimalPadded 2 (tod % 60) ++ "Z"

/-- `i-` and twelve hexadecimal digits: the nanoseconds since 1970, modulo 2⁴⁸. -/
def Instant.runId (t : Instant) : String :=
  "i-" ++ Text.hexPadded 12 ((t.secs * 1000000000 + t.nanos) % Nat.pow 2 48)

end GameInstaller.Time
