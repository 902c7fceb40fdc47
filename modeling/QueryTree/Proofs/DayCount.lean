import Mathlib.Tactic.IntervalCases
import Mathlib.Tactic.Set
import QueryTree.Calendar

/-!
# Day counts and days of the calendar

A date is kept as a day count. Here the two conversions between counts and days of the calendar are
shown to be inverse to each other (`ymdOf_dayOf`, `dayOf_ymdOf`), and the bounds of the type `Date`
to be those of the years -262143 to 262142 (`Date.exists_ofYmd?_iff`).

Both conversions count years from March, so that a leap day is the last day of its year, and group
them in eras of 400 years, which all have the same length. A day is then an era, a year of the era
and a place within the year. The year of the era is the one step that is not plain division: the
quotient by 365 is taken after the leap days passed so far are removed, and `yearOfEra_eq` says that
the estimate of these leap days is never off by enough to matter.
-/

namespace QueryTree

namespace Calendar

/-- The calendar has such a day. -/
def IsDay (year : Int) (month day : Nat) : Prop := 1 ≤ day ∧ day ≤ daysIn year month

/-- A leap year in terms of remainders. -/
theorem isLeap_iff (year : Int) :
    isLeap year = true ↔ year % 4 = 0 ∧ (year % 100 ≠ 0 ∨ year % 400 = 0) := by
  unfold isLeap
  simp [Int.fmod_eq_emod_of_nonneg]

/-! ### Years of an era -/

/-- A place within a year that begins in March. Only a year that runs into a leap year has a 366th
place. -/
structure IsPlace (year place : Int) : Prop where
  nonneg : 0 ≤ place
  le : place ≤ 365
  leap : place = 365 → (year + 1) % 4 = 0 ∧ ((year + 1) % 100 ≠ 0 ∨ (year + 1) % 400 = 0)

/-- The days of an era before a given year of it. -/
def daysBefore (year : Int) : Int := year * 365 + year / 4 - year / 100

/-- The year of an era can be read off a day of the era. The three quotients count the leap days
that have passed. They are off by one at most, and then not on the first day of a year, so the
division by 365 is not disturbed. -/
theorem yearOfEra_eq {year place count : Int} (hyear : 0 ≤ year) (hyear' : year < 400)
    (hplace : IsPlace year place) (hcount : count = daysBefore year + place) :
    0 ≤ count ∧ count < 146097 ∧
      (count - count / 1460 + count / 36524 - count / 146096) / 365 = year := by
  obtain ⟨hnonneg, hle, hleap⟩ := hplace
  unfold daysBefore at hcount
  -- the leap days are overestimated by one at most, and then not on the first day of a year
  have hcycles : count / 1460 = year / 4 ∧ place ≤ 364 ∨
      count / 1460 = year / 4 + 1 ∧ 1 ≤ place := by
    by_cases hlast : place = 365
    · obtain ⟨h4, h100 | h400⟩ := hleap hlast
      · omega
      · omega
    · omega
  have hcentury : count =
      36524 * (year / 100) + (365 * (year % 100) + year % 100 / 4 + place) := by
    omega
  -- a century is over before its last leap day would come, except at the end of the era
  have hrest : 365 * (year % 100) + year % 100 / 4 + place < 36524 ∨ count = 146096 := by
    by_cases hlast : place = 365
    · obtain ⟨h4, h100 | h400⟩ := hleap hlast
      · omega
      · omega
    · omega
  have hcenturies : count / 36524 = year / 100 + count / 146096 := by
    rcases hrest with hrest | hrest
    · have hdiv : count / 36524 = year / 100 := by omega
      have hera : count / 146096 = 0 := by omega
      omega
    · omega
  refine ⟨?_, ?_, ?_⟩
  · omega
  · omega
  · omega

/-- Each day of an era is a place of one of its years. It is found from the century, the cycle of
four years in it and the year of the cycle. The minima take care of the last century and the last
year, which may be a day longer. -/
theorem exists_yearOfEra {count : Int} (h : 0 ≤ count) (h' : count < 146097) :
    ∃ year place, 0 ≤ year ∧ year < 400 ∧ IsPlace year place ∧
      count = daysBefore year + place := by
  -- the century, the cycle of four years in it, and the year of the cycle
  let century := min (count / 36524) 3
  let inCentury := count - 36524 * century
  let cycle := inCentury / 1461
  let inCycle := inCentury - 1461 * cycle
  let year := min (inCycle / 365) 3
  have hcentury : 0 ≤ century ∧ century ≤ 3 := by omega
  have hinCentury : 0 ≤ inCentury ∧ inCentury ≤ 36524 ∧ (inCentury = 36524 → century = 3) := by
    omega
  have hcycle : 0 ≤ cycle ∧ cycle ≤ 24 := by omega
  have hyear : 0 ≤ year ∧ year ≤ 3 ∧ 0 ≤ inCycle - 365 * year ∧ inCycle - 365 * year ≤ 365 ∧
      (inCycle - 365 * year = 365 → inCycle = 1460) := by
    omega
  have hsplit : inCentury = 1461 * cycle + inCycle ∧ count = 36524 * century + inCentury := by
    omega
  clear_value century inCentury cycle inCycle year
  have hcycles : (100 * century + 4 * cycle + year) / 4 = 25 * century + cycle := by omega
  have hcenturies : (100 * century + 4 * cycle + year) / 100 = century := by omega
  refine ⟨100 * century + 4 * cycle + year, inCycle - 365 * year, by omega, by omega,
    ⟨by omega, by omega, ?_⟩, ?_⟩
  · intro hlast
    refine ⟨by omega, ?_⟩
    by_cases hend : cycle = 24
    · right
      omega
    · left
      omega
  · unfold daysBefore
    omega

/-! ### Months of a year from March on -/

/-- Months counted from March. -/
def monthIndex (month : Nat) : Int := (month : Int) + (if 2 < month then -3 else 9)

/-- The year from March on that holds a month. -/
def marchYear (year : Int) (month : Nat) : Int := if month ≤ 2 then year - 1 else year

/-- The place of a day within its year from March on. -/
def place (month day : Nat) : Int := (153 * monthIndex month + 2) / 5 + day - 1

/-- The number of a day, from its era of 400 years, its year in the era and its place in the year.
-/
theorem dayOf_eq (year : Int) (month day : Nat) :
    dayOf year month day = marchYear year month / 400 * 146097 +
      (daysBefore (marchYear year month % 400) + place month day) - epochShift := by
  rw [← Int.fdiv_eq_ediv_of_nonneg _ (by decide), ← Int.fmod_eq_emod_of_nonneg _ (by decide)]
  rfl

/-- A day stands in one of twelve months. -/
theorem month_of_isDay {year : Int} {month day : Nat} (h : IsDay year month day) :
    1 ≤ month ∧ month ≤ 12 := by
  obtain ⟨hday, hdays⟩ := h
  unfold daysIn at hdays
  split at hdays <;> omega

/-- The place of a day tells its month, and the 366th place belongs to a leap day. -/
theorem place_spec {year : Int} {month day : Nat} (h : IsDay year month day) :
    0 ≤ place month day ∧
      (place month day ≤ 364 ∨ place month day = 365 ∧ month = 2 ∧ isLeap year = true) ∧
      (5 * place month day + 2) / 153 = monthIndex month := by
  obtain ⟨hlow, hhigh⟩ := month_of_isDay h
  obtain ⟨hday, hdays⟩ := h
  by_cases hfebruary : month = 2
  · subst hfebruary
    by_cases hleap : isLeap year = true
    · simp [daysIn, hleap] at hdays
      simp [place, monthIndex, hleap]
      omega
    · simp [daysIn, hleap] at hdays
      simp [place, monthIndex, hleap]
      omega
  · have hplace : 0 ≤ place month day ∧ place month day ≤ 364 ∧
        (5 * place month day + 2) / 153 = monthIndex month := by
      interval_cases month <;> simp [daysIn] at hdays hfebruary <;>
        simp [place, monthIndex] <;> omega
    exact ⟨hplace.1, .inl hplace.2.1, hplace.2.2⟩

/-- A day of the calendar has a place in its year, counted from March. -/
theorem isPlace_of_isDay {year : Int} {month day : Nat} (h : IsDay year month day) :
    IsPlace (marchYear year month % 400) (place month day) := by
  obtain ⟨hnonneg, hle | ⟨hlast, rfl, hleap⟩, -⟩ := place_spec h
  · exact ⟨hnonneg, by omega, by omega⟩
  · rw [isLeap_iff] at hleap
    refine ⟨hnonneg, by omega, fun _ => ?_⟩
    simp only [marchYear, le_refl, if_true]
    omega

/-- The days of February are the places from the 338th on. -/
theorem isDay_february {year place : Int} (h : IsPlace (year % 400) place) (hfirst : 337 ≤ place) :
    IsDay (year + 1) 2 (place - 336).toNat := by
  obtain ⟨-, hle, hleap⟩ := h
  refine ⟨by omega, ?_⟩
  by_cases hlast : place = 365
  · have hyear : isLeap (year + 1) = true := by
      rw [isLeap_iff]
      have := hleap hlast
      omega
    simp only [daysIn, hyear, if_true]
    omega
  · simp only [daysIn]
    split <;> omega

/-- Each place of a year from March on is that of a day. -/
theorem exists_isDay {year p : Int} (h : IsPlace (year % 400) p) :
    ∃ (y : Int) (month day : Nat), IsDay y month day ∧ marchYear y month = year ∧
      place month day = p := by
  obtain ⟨hnonneg, hle, -⟩ := id h
  by_cases hfebruary : 337 ≤ p
  · refine ⟨year + 1, 2, (p - 336).toNat, isDay_february h hfebruary, by simp [marchYear], ?_⟩
    simp [place, monthIndex]
    omega
  · obtain ⟨index, hindex⟩ : ∃ index : Nat, (index : Int) = (5 * p + 2) / 153 :=
      ⟨((5 * p + 2) / 153).toNat, by omega⟩
    have hjanuary : index ≤ 10 := by omega
    refine ⟨if index < 10 then year else year + 1, if index < 10 then index + 3 else index - 9,
      (p - (153 * index + 2) / 5 + 1).toNat, ?_, ?_, ?_⟩
    · interval_cases index <;> simp [IsDay, daysIn] <;> omega
    · interval_cases index <;> simp [marchYear]
    · interval_cases index <;> simp [place, monthIndex] <;> omega

/-! ### Both ways -/

/-- Year, month and day are read back from the count of a day. The era, the year of the era and the
place in the year are recovered in turn, each from what the one before has left. -/
theorem ymdOf_dayOf {year : Int} {month day : Nat} (h : IsDay year month day) :
    ymdOf (dayOf year month day) = (year, month, day) := by
  have hplaceOf := isPlace_of_isDay h
  obtain ⟨-, -, hmonth⟩ := place_spec h
  obtain ⟨hlow, hhigh⟩ := month_of_isDay h
  set y := marchYear year month % 400 with hy
  set p := place month day with hp
  obtain ⟨hstart, hend, hyear⟩ :=
    yearOfEra_eq (by omega) (by omega) hplaceOf rfl
  have hcount : dayOf year month day + epochShift =
      marchYear year month / 400 * 146097 + (daysBefore y + p) := by
    rw [dayOf_eq, ← hy, ← hp]
    omega
  have hera : (dayOf year month day + epochShift).fdiv 146097 = marchYear year month / 400 := by
    rw [Int.fdiv_eq_ediv_of_nonneg _ (by decide)]
    omega
  have hdayOfEra : (dayOf year month day + epochShift).fmod 146097 = daysBefore y + p := by
    rw [Int.fmod_eq_emod_of_nonneg _ (by decide)]
    omega
  have hplace : daysBefore y + p - (365 * y + y / 4 - y / 100) = p := by
    unfold daysBefore
    omega
  simp only [ymdOf, hera, hdayOfEra, hyear, hplace, hmonth]
  have hcalendarMonth :
      (if monthIndex month < 10 then monthIndex month + 3 else monthIndex month - 9) = month := by
    unfold monthIndex
    split <;> split <;> omega
  have hday : p - (153 * monthIndex month + 2) / 5 + 1 = day := by
    rw [hp, place]
    omega
  simp only [hcalendarMonth, hday, Int.toNat_natCast]
  congr 1
  unfold marchYear at hy ⊢
  split at hy <;> split <;> omega

/-- Each day count is that of a day of the calendar. -/
theorem exists_dayOf_eq (count : Int) :
    ∃ (year : Int) (month day : Nat), IsDay year month day ∧ dayOf year month day = count := by
  let shifted := count + epochShift
  obtain ⟨y, p, hy, hy', hp, hcount⟩ :=
    exists_yearOfEra (Int.emod_nonneg shifted (by decide)) (Int.emod_lt_of_pos shifted (by decide))
  have hyear : (shifted / 146097 * 400 + y) % 400 = y := by omega
  rw [← hyear] at hp
  obtain ⟨year, month, day, hday, hmarch, rfl⟩ := exists_isDay hp
  refine ⟨year, month, day, hday, ?_⟩
  rw [dayOf_eq, hmarch, hyear]
  omega

/-- What is read off a day count is a day of the calendar, and has that count. -/
theorem dayOf_ymdOf (count : Int) :
    IsDay (ymdOf count).1 (ymdOf count).2.1 (ymdOf count).2.2 ∧
      dayOf (ymdOf count).1 (ymdOf count).2.1 (ymdOf count).2.2 = count := by
  obtain ⟨year, month, day, hday, rfl⟩ := exists_dayOf_eq count
  rw [ymdOf_dayOf hday]
  exact ⟨hday, rfl⟩

/-! ### The supported years -/

/-- January and February are the last places of a year from March on. -/
theorem le_place_iff {year : Int} {month day : Nat} (h : IsDay year month day) :
    306 ≤ place month day ↔ month ≤ 2 := by
  obtain ⟨-, -, hindex⟩ := place_spec h
  obtain ⟨hlow, hhigh⟩ := month_of_isDay h
  have hday := h.1
  unfold place monthIndex at *
  split at hindex <;> split <;> omega

/-- The days of the supported years are the day counts in range. The count grows with the year, so
that only the years at the two ends need a look at their months. -/
theorem dayOf_bounds_iff {year : Int} {month day : Nat} (h : IsDay year month day) :
    (firstDay ≤ dayOf year month day ↔ -262143 ≤ year) ∧
      (dayOf year month day ≤ lastDay ↔ year ≤ 262142) := by
  obtain ⟨hnonneg, hle, -⟩ := isPlace_of_isDay h
  have hplace := le_place_iff h
  have hcount : dayOf year month day = 365 * marchYear year month + marchYear year month / 4 -
      marchYear year month / 100 + marchYear year month / 400 + place month day - 730425 := by
    rw [dayOf_eq, daysBefore, epochShift]
    omega
  have hyear : marchYear year month = year ∧ ¬ month ≤ 2 ∨
      marchYear year month = year - 1 ∧ month ≤ 2 := by
    unfold marchYear
    split <;> omega
  rw [hcount, firstDay, lastDay]
  generalize marchYear year month = y at *
  generalize place month day = p at *
  -- the first and the last day lie within a year from March on, and only that year needs care
  constructor
  · by_cases hedge : y = -262144
    · subst hedge
      omega
    · omega
  · by_cases hedge : y = 262142
    · subst hedge
      omega
    · omega

end Calendar

/-! ### Dates -/

namespace Date

/-- A date is the date of its day number. -/
theorem ofDay?_day (d : Date) : ofDay? d.day = some d := dif_pos ⟨d.first_le, d.le_last⟩

/-- The days that are dates are those of the supported years, and a date shows its year, month and
day. -/
theorem exists_ofYmd?_iff (year : Int) (month day : Nat) :
    (∃ d, ofYmd? year month day = some d ∧ d.ymd = (year, month, day)) ↔
      Calendar.IsDay year month day ∧ -262143 ≤ year ∧ year ≤ 262142 := by
  unfold ofYmd?
  by_cases hday : 1 ≤ day ∧ day ≤ Calendar.daysIn year month
  · rw [if_pos hday]
    obtain ⟨hfirst, hlast⟩ := Calendar.dayOf_bounds_iff hday
    constructor
    · rintro ⟨d, hd, -⟩
      unfold ofDay? at hd
      split at hd
      next hrange => exact ⟨hday, hfirst.1 hrange.1, hlast.1 hrange.2⟩
      next => cases hd
    · rintro ⟨-, hlow, hhigh⟩
      exact ⟨_, dif_pos ⟨hfirst.2 hlow, hlast.2 hhigh⟩, Calendar.ymdOf_dayOf hday⟩
  · rw [if_neg hday]
    constructor
    · rintro ⟨d, hd, -⟩
      cases hd
    · exact fun h => absurd h.1 hday

/-- A date is the date of the year, month and day that it shows. -/
theorem ofYmd?_ymd (d : Date) : ofYmd? d.ymd.1 d.ymd.2.1 d.ymd.2.2 = some d := by
  obtain ⟨hday, hcount⟩ := Calendar.dayOf_ymdOf d.day
  unfold ofYmd? ymd
  refine (if_pos hday).trans ?_
  rw [hcount, ofDay?_day]

end Date

end QueryTree
