/-!
# Dates, times of day and instants

A date is a day of the proleptic Gregorian calendar, kept as its distance from 2000-01-01 so that
order, equality and differences are those of integers; `Date.ymd` and `Date.ofYmd?` convert between
that count and year, month and day. A time of day is a second of the day and a nanosecond count
that exceeds one second exactly during a leap second. An instant joins the two.

The supported years are -262143 to 262142, and the bounds are part of the type.
-/

namespace QueryTree

/-! ## The calendar -/

namespace Calendar

/-- Days from 0000-03-01 to 2000-01-01. Years are counted from March, so that a leap day is the
last day of its year. -/
def epochShift : Int := 730425

/-- The day count of a year, month and day; day 0 is 2000-01-01. -/
def dayOf (year : Int) (month day : Nat) : Int :=
  let y := if month ≤ 2 then year - 1 else year
  let era := y.fdiv 400
  let yearOfEra := y.fmod 400
  let dayOfYear : Int := (153 * ((month : Int) + (if 2 < month then -3 else 9)) + 2) / 5 + day - 1
  era * 146097 + (yearOfEra * 365 + yearOfEra / 4 - yearOfEra / 100 + dayOfYear) - epochShift

/-- The year, month and day of a day count. -/
def ymdOf (day : Int) : Int × Nat × Nat :=
  let z := day + epochShift
  let era := z.fdiv 146097
  let dayOfEra := z.fmod 146097
  let yearOfEra := (dayOfEra - dayOfEra / 1460 + dayOfEra / 36524 - dayOfEra / 146096) / 365
  let dayOfYear := dayOfEra - (365 * yearOfEra + yearOfEra / 4 - yearOfEra / 100)
  let shifted := (5 * dayOfYear + 2) / 153
  let month := if shifted < 10 then shifted + 3 else shifted - 9
  let year := yearOfEra + era * 400 + (if month ≤ 2 then 1 else 0)
  (year, month.toNat, (dayOfYear - (153 * shifted + 2) / 5 + 1).toNat)

/-- A leap year of the Gregorian calendar. -/
def isLeap (year : Int) : Bool :=
  year.fmod 4 = 0 && (year.fmod 100 ≠ 0 || year.fmod 400 = 0)

/-- The number of days of a month; no month outside 1 to 12 has any. -/
def daysIn (year : Int) (month : Nat) : Nat :=
  match month with
  | 1 | 3 | 5 | 7 | 8 | 10 | 12 => 31
  | 4 | 6 | 9 | 11 => 30
  | 2 => if isLeap year then 29 else 28
  | _ => 0

/-- The first day of the year -262143. -/
def firstDay : Int := -96476249

/-- The last day of the year 262142. -/
def lastDay : Int := 95015279

end Calendar

/-! ## Dates -/

/-- A day, counted from 2000-01-01. -/
structure Date where
  day : Int
  first_le : Calendar.firstDay ≤ day
  le_last : day ≤ Calendar.lastDay
deriving DecidableEq

namespace Date

/-- The date of a day count, when it is in range. -/
def ofDay? (day : Int) : Option Date :=
  if h : Calendar.firstDay ≤ day ∧ day ≤ Calendar.lastDay then some ⟨day, h.1, h.2⟩ else none

/-- The date of a year, month and day, when there is such a day. -/
def ofYmd? (year : Int) (month day : Nat) : Option Date :=
  if 1 ≤ day ∧ day ≤ Calendar.daysIn year month then ofDay? (Calendar.dayOf year month day)
  else none

/-- The year, the month and the day of the month. -/
def ymd (d : Date) : Int × Nat × Nat := Calendar.ymdOf d.day

instance : Ord Date := ⟨fun a b => compare a.day b.day⟩

end Date

/-! ## Times of day -/

/-- A second of the day and the nanoseconds since it began. During a leap second the count runs on
beyond one second. -/
structure Time where
  second : Nat
  nanosecond : Nat
  second_lt : second < 86400
  nanosecond_lt : nanosecond < 2000000000
deriving DecidableEq

namespace Time

/-- The beginning of the day. -/
def midnight : Time := ⟨0, 0, by decide, by decide⟩

/-- The time of a second of the day and a nanosecond count, when both are in range. -/
def of? (second nanosecond : Nat) : Option Time :=
  if h : second < 86400 ∧ nanosecond < 2000000000 then some ⟨second, nanosecond, h.1, h.2⟩
  else none

/-- The time shown by a clock. A leap second belongs to the last second of its minute. -/
def ofClock? (hour minute second nanosecond : Nat) : Option Time :=
  if hour < 24 ∧ minute < 60 ∧ second < 60 ∧ (nanosecond < 1000000000 ∨ second = 59) then
    of? (hour * 3600 + minute * 60 + second) nanosecond
  else none

/-- The hour of the day. -/
def hour (t : Time) : Nat := t.second / 3600

/-- The minute of the hour. -/
def minute (t : Time) : Nat := t.second / 60 % 60

/-- The second of the minute. -/
def secondOfMinute (t : Time) : Nat := t.second % 60

/-- Nanoseconds since midnight, a leap second included. -/
def nanoseconds (t : Time) : Nat := t.second * 1000000000 + t.nanosecond

instance : Ord Time :=
  ⟨fun a b => (compare a.second b.second).then (compare a.nanosecond b.nanosecond)⟩

end Time

/-! ## Instants -/

/-- A date and a time of day, without a time zone. -/
structure DateTime where
  date : Date
  time : Time
deriving DecidableEq

instance : Ord DateTime := ⟨fun a b => (compare a.date b.date).then (compare a.time b.time)⟩

/-! ## Text -/

namespace Calendar

/-- The decimal digits of `n`, with zeros in front up to `width`. -/
def padded (width n : Nat) : String :=
  let digits := Nat.toDigits 10 n
  String.ofList (List.replicate (width - digits.length) '0' ++ digits)

/-- A year has four digits; beyond 0 to 9999 it also has a sign. -/
def yearText (year : Int) : String :=
  if 0 ≤ year ∧ year ≤ 9999 then padded 4 year.toNat
  else (if year < 0 then "-" else "+") ++ padded 4 year.natAbs

end Calendar

open Calendar (padded yearText)

/-- Year, month and day with hyphens between them. -/
def Date.text (d : Date) : String :=
  let (year, month, day) := d.ymd
  s!"{yearText year}-{padded 2 month}-{padded 2 day}"

/-- The fraction of a second, in as few groups of three digits as keep it exact. -/
def Time.fractionText (nanosecond : Nat) : String :=
  if nanosecond = 0 then ""
  else if nanosecond % 1000000 = 0 then "." ++ padded 3 (nanosecond / 1000000)
  else if nanosecond % 1000 = 0 then "." ++ padded 6 (nanosecond / 1000)
  else "." ++ padded 9 nanosecond

/-- A leap second is shown as second 60. -/
def Time.text (t : Time) : String :=
  let leap := 1000000000 ≤ t.nanosecond
  let second := if leap then t.secondOfMinute + 1 else t.secondOfMinute
  let fraction := if leap then t.nanosecond - 1000000000 else t.nanosecond
  s!"{padded 2 t.hour}:{padded 2 t.minute}:{padded 2 second}" ++ Time.fractionText fraction

/-- The date and the time, with `separator` between them. -/
def DateTime.text (separator : String) (dt : DateTime) : String :=
  dt.date.text ++ separator ++ dt.time.text

end QueryTree
