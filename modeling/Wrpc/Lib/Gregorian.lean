/-
# The civil calendar

Dates of the Gregorian calendar and times of day, counted from the beginning of a year.
A `Date` cannot be built with a month or a day that does not exist.

The count of days is a sum over the years and months before, so it says nothing about
how a date is found from a count.  It grows with the date (`DateTime.seconds_lt`);
therefore the date of a count is unique and the order of counts is that of dates.
-/
import Mathlib.Algebra.BigOperators.Intervals
import Mathlib.Algebra.Order.BigOperators.Group.Finset

namespace Wrpc.Gregorian

/-! ## Years and months -/

/-- A leap year: one in four, of the centuries only one in four. -/
def IsLeap (year : Nat) : Prop := year % 4 = 0 ∧ (year % 100 ≠ 0 ∨ year % 400 = 0)

instance (year : Nat) : Decidable (IsLeap year) :=
  inferInstanceAs (Decidable (year % 4 = 0 ∧ (year % 100 ≠ 0 ∨ year % 400 = 0)))

def yearDays (year : Nat) : Nat := if IsLeap year then 366 else 365

/-- The days of a month, January being 1. -/
def monthDays (year month : Nat) : Nat :=
  match month with
  | 2 => if IsLeap year then 29 else 28
  | 4 | 6 | 9 | 11 => 30
  | _ => 31

theorem sum_monthDays (year : Nat) : ∑ m ∈ Finset.Ico 1 13, monthDays year m = yearDays year := by
  by_cases h : IsLeap year
  · simp [Finset.sum_Ico_succ_top, monthDays, yearDays, h]
  · simp [Finset.sum_Ico_succ_top, monthDays, yearDays, h]

theorem sum_Ico_add_le (f : Nat → Nat) {a b c : Nat} (hab : a ≤ b) (hbc : b < c) :
    ∑ i ∈ Finset.Ico a b, f i + f b ≤ ∑ i ∈ Finset.Ico a c, f i := by
  rw [← Finset.sum_Ico_succ_top hab]
  exact Finset.sum_le_sum_of_subset (Finset.Ico_subset_Ico_right hbc)

/-! ## Dates -/

/-- A day of the calendar. -/
structure Date where
  year : Nat
  month : Nat
  day : Nat
  month_pos : 1 ≤ month
  month_le : month ≤ 12
  day_pos : 1 ≤ day
  day_le : day ≤ monthDays year month

namespace Date

variable (d : Date)

/-- The day of the year, the first being 0. -/
def dayOfYear : Nat := ∑ m ∈ Finset.Ico 1 d.month, monthDays d.year m + (d.day - 1)

/-- The days since the beginning of the year `epoch`. -/
def days (epoch : Nat) : Nat := ∑ y ∈ Finset.Ico epoch d.year, yearDays y + d.dayOfYear

theorem dayOfYear_lt : d.dayOfYear < yearDays d.year := by
  have hsum := sum_Ico_add_le (monthDays d.year) d.month_pos (Nat.lt_succ_of_le d.month_le)
  rw [sum_monthDays] at hsum
  have hday := d.day_le
  have hpos := d.day_pos
  rw [dayOfYear]
  omega

variable {d} {d' : Date}

theorem days_lt_of_year {epoch : Nat} (he : epoch ≤ d.year) (h : d.year < d'.year) :
    d.days epoch < d'.days epoch := by
  have hsum := sum_Ico_add_le yearDays he h
  have hlt := d.dayOfYear_lt
  rw [days, days]
  omega

theorem dayOfYear_lt_of_month (hy : d.year = d'.year) (h : d.month < d'.month) :
    d.dayOfYear < d'.dayOfYear := by
  have hsum := sum_Ico_add_le (monthDays d.year) d.month_pos h
  have hle := d.day_le
  have hpos := d.day_pos
  rw [dayOfYear, dayOfYear, ← hy]
  omega

theorem dayOfYear_lt_of_day (hy : d.year = d'.year) (hm : d.month = d'.month)
    (h : d.day < d'.day) : d.dayOfYear < d'.dayOfYear := by
  have hpos := d.day_pos
  rw [dayOfYear, dayOfYear, ← hy, ← hm]
  omega

theorem days_eq_add (hy : d.year = d'.year) (epoch : Nat) :
    d.days epoch + d'.dayOfYear = d'.days epoch + d.dayOfYear := by
  rw [days, days, ← hy]
  omega

end Date

/-! ## Dates with a time -/

/-- A second of the calendar. -/
structure DateTime extends Date where
  hour : Nat
  minute : Nat
  second : Nat
  hour_lt : hour < 24
  minute_lt : minute < 60
  second_lt : second < 60

namespace DateTime

variable (t : DateTime)

def secondOfDay : Nat := t.hour * 3600 + t.minute * 60 + t.second

/-- The seconds since the beginning of the year `epoch`. -/
def seconds (epoch : Nat) : Nat := t.days epoch * 86400 + t.secondOfDay

def fields : List Nat := [t.year, t.month, t.day, t.hour, t.minute, t.second]

theorem secondOfDay_lt : t.secondOfDay < 86400 := by
  have hh := t.hour_lt
  have hm := t.minute_lt
  have hs := t.second_lt
  rw [secondOfDay]
  omega

variable {t} {t' : DateTime}

theorem seconds_lt_of_days {epoch : Nat} (h : t.days epoch < t'.days epoch) :
    t.seconds epoch < t'.seconds epoch := by
  have hlt := t.secondOfDay_lt
  rw [seconds, seconds]
  omega

theorem seconds_lt {epoch : Nat} (he : epoch ≤ t.year) (h : t.fields < t'.fields) :
    t.seconds epoch < t'.seconds epoch := by
  simp only [fields, List.cons_lt_cons_iff, List.not_lt_nil, and_false, or_false] at h
  rcases h with hyear | ⟨hyear, hmonth | ⟨hmonth, hday | ⟨hday, htime⟩⟩⟩
  · exact seconds_lt_of_days (Date.days_lt_of_year he hyear)
  · have hlt := Date.dayOfYear_lt_of_month hyear hmonth
    have hadd := Date.days_eq_add hyear epoch
    exact seconds_lt_of_days (by omega)
  · have hlt := Date.dayOfYear_lt_of_day hyear hmonth hday
    have hadd := Date.days_eq_add hyear epoch
    exact seconds_lt_of_days (by omega)
  · have hsame : t.days epoch = t'.days epoch := by
      rw [Date.days, Date.days, Date.dayOfYear, Date.dayOfYear, hyear, hmonth, hday]
    have hm := t.minute_lt
    have hs := t.second_lt
    rw [seconds, seconds, hsame, secondOfDay, secondOfDay]
    omega

theorem fields_lt {epoch : Nat} (he' : epoch ≤ t'.year)
    (h : t.seconds epoch < t'.seconds epoch) : t.fields < t'.fields := by
  rcases lt_trichotomy t.fields t'.fields with hlt | heq | hgt
  · exact hlt
  · have hsame : t.seconds epoch = t'.seconds epoch := by
      simp only [fields, List.cons.injEq, and_true] at heq
      obtain ⟨hyear, hmonth, hday, hhour, hminute, hsecond⟩ := heq
      rw [seconds, seconds, Date.days, Date.days, Date.dayOfYear, Date.dayOfYear, secondOfDay,
        secondOfDay, hyear, hmonth, hday, hhour, hminute, hsecond]
    omega
  · exact absurd (seconds_lt he' hgt) (by omega)

end DateTime

inductive Weekday where
  | sunday | monday | tuesday | wednesday | thursday | friday | saturday
deriving DecidableEq, Repr

namespace Weekday

def next : Weekday → Weekday
  | sunday => monday
  | monday => tuesday
  | tuesday => wednesday
  | wednesday => thursday
  | thursday => friday
  | friday => saturday
  | saturday => sunday

def index : Weekday → Nat
  | sunday => 0
  | monday => 1
  | tuesday => 2
  | wednesday => 3
  | thursday => 4
  | friday => 5
  | saturday => 6

theorem index_next (w : Weekday) : w.next.index = (w.index + 1) % 7 := by
  cases w <;> rfl

theorem index_iterate (w : Weekday) : ∀ n, (next^[n] w).index = (w.index + n) % 7
  | 0 => by cases w <;> rfl
  | n + 1 => by
    rw [Function.iterate_succ_apply', index_next, index_iterate w n]
    omega

end Weekday

end Wrpc.Gregorian
