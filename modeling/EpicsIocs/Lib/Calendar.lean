import Mathlib.Data.Nat.Init
import Mathlib.Tactic.SplitIfs

/-!
# The proleptic Gregorian calendar

A `Date` is a day of the calendar from year 0 on; `Date.number` counts the days before it, by the
lengths of the years and months in between.  In closed form, for the day `k` days after the first
of March of year `y` (`sinceMarch`):

    d.number = 365 * y + y / 4 - y / 100 + y / 400 + k + 60       (number_eq)

January and February belong to the year before.
-/

namespace Calendar

def isLeap (year : Nat) : Bool := year % 4 == 0 && (year % 100 != 0 || year % 400 == 0)

def yearLength (year : Nat) : Nat := if isLeap year then 366 else 365

def monthLength (year : Nat) : Nat → Nat
  | 2 => if isLeap year then 29 else 28
  | 4 | 6 | 9 | 11 => 30
  | _ => 31

structure Date where
  year : Nat
  month : Nat
  day : Nat
  month_pos : 1 ≤ month
  month_le : month ≤ 12
  day_pos : 1 ≤ day
  day_le : day ≤ monthLength year month

/-- The days before the first of January of a year. -/
def daysBeforeYear : Nat → Nat
  | 0 => 0
  | year + 1 => daysBeforeYear year + yearLength year

/-- The days of a year before the first of a month. -/
def daysBeforeMonth (year : Nat) : Nat → Nat
  | 0 => 0
  | 1 => 0
  | month + 2 => daysBeforeMonth year (month + 1) + monthLength year (month + 1)

/-- The days before a date. -/
def Date.number (d : Date) : Nat :=
  daysBeforeYear d.year + daysBeforeMonth d.year d.month + (d.day - 1)

/-- The first of January 1970. -/
def unixEpoch : Date := ⟨1970, 1, 1, by decide, by decide, by decide, by decide⟩

theorem isLeap_iff {year : Nat} :
    isLeap year = true ↔ year % 4 = 0 ∧ (year % 100 ≠ 0 ∨ year % 400 = 0) := by
  simp [isLeap]

/-- The leap years up to a year, year 0 among them. -/
theorem daysBeforeYear_succ (year : Nat) :
    daysBeforeYear (year + 1) = 365 * year + (year / 4 - year / 100 + year / 400) + 366 := by
  induction year with
  | zero => rfl
  | succ year ih =>
    have hle : year / 100 ≤ year / 4 := Nat.div_le_div_left (by decide) (by decide)
    rw [daysBeforeYear, ih, yearLength, Nat.succ_div, Nat.succ_div, Nat.succ_div]
    simp only [isLeap_iff, Nat.dvd_iff_mod_eq_zero]
    generalize year / 4 = four at hle
    generalize year / 100 = century at hle
    generalize year / 400 = era
    split_ifs <;> omega

theorem unixEpoch_number : unixEpoch.number = 719528 := by
  rw [Date.number, unixEpoch, daysBeforeYear_succ 1969]
  rfl

/-- The days from the first of March to the first of the month `m` months later. -/
def sinceMarch (m : Nat) : Nat := (153 * m + 2) / 5

theorem daysBeforeMonth_eq {year month : Nat} (h : 3 ≤ month) (h' : month ≤ 12) :
    daysBeforeMonth year month = sinceMarch (month - 3) + 59 + if isLeap year then 1 else 0 := by
  have hcases : month = 3 ∨ month = 4 ∨ month = 5 ∨ month = 6 ∨ month = 7 ∨ month = 8 ∨ month = 9 ∨
      month = 10 ∨ month = 11 ∨ month = 12 := by omega
  cases hleap : isLeap year <;>
    rcases hcases with h | h | h | h | h | h | h | h | h | h <;>
    simp [h, daysBeforeMonth, monthLength, hleap, sinceMarch]

/-- From March on, by the closed form of the leap years up to this one. -/
theorem number_eq {d : Date} (h : 3 ≤ d.month) :
    (d.number : Int) = 365 * d.year + d.year / 4 - d.year / 100 + d.year / 400 +
      sinceMarch (d.month - 3) + 59 + d.day := by
  have hyear : daysBeforeYear d.year + yearLength d.year =
      365 * d.year + (d.year / 4 - d.year / 100 + d.year / 400) + 366 := daysBeforeYear_succ d.year
  have hlength : yearLength d.year = 365 + if isLeap d.year then 1 else 0 := by
    unfold yearLength
    split <;> rfl
  have hle : d.year / 100 ≤ d.year / 4 := Nat.div_le_div_left (by decide) (by decide)
  have hday := d.day_pos
  have hmonth : daysBeforeMonth d.year d.month + 365 =
      sinceMarch (d.month - 3) + 59 + yearLength d.year := by
    rw [daysBeforeMonth_eq h d.month_le, hlength]
    omega
  rw [Date.number]
  omega

/-- January and February, by the leap years up to the year before. -/
theorem number_eq_of_lt {d : Date} (h : d.month < 3) :
    (d.number : Int) = 365 * ((d.year : Int) - 1) + ((d.year : Int) - 1) / 4 -
      ((d.year : Int) - 1) / 100 + ((d.year : Int) - 1) / 400 + sinceMarch (d.month + 9) + 59 +
      d.day := by
  have hmonth := d.month_pos
  have hday := d.day_pos
  have hcases : d.month = 1 ∨ d.month = 2 := by omega
  have hdays : daysBeforeMonth d.year d.month + 306 = sinceMarch (d.month + 9) := by
    rcases hcases with h | h <;> rw [h] <;> rfl
  rw [Date.number, ← hdays]
  cases hyear : d.year with
  | zero =>
    simp only [daysBeforeYear]
    omega
  | succ year =>
    have hcast : ((year + 1 : Nat) : Int) - 1 = year := by omega
    have hle : year / 100 ≤ year / 4 := Nat.div_le_div_left (by decide) (by decide)
    rw [hcast, daysBeforeYear_succ]
    omega

end Calendar
