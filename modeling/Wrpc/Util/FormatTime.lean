/-
# Dates from seconds (`util.c`)

`format_time` and `format_time_int` have the same two loops, one over years and one over
the months of the year, and differ in what they do with the fields.  The loops count by
a leap year every four years, which is the Gregorian calendar from 1901 to 2099.

A table entry is looked up with its index checked: `none` is an access outside
`_ytab`, `_months` or `_days`.
-/
import Wrpc.Lib.Gregorian
import Wrpc.Util.Vsprintf

namespace Wrpc.Time

open Gregorian Printf List Option Nat

/-- `EPOCH_YR` -/
def epochYr : Nat := 1970

/-- `SECS_DAY` -/
def secsDay : Nat := 24 * 60 * 60

/-- `LEAPYEAR`, "correct from 1901 to 2099" -/
def leapYear (year : Nat) : Bool := year % 4 == 0

/-- `YEARSIZE` -/
def yearSize (year : Nat) : Nat := if leapYear year then 366 else 365

/-- `_days` -/
def days : List String := ["Sun", "Mon", "Tue", "Wed", "Thu", "Fri", "Sat"]

/-- `_months` -/
def months : List String :=
  ["Jan", "Feb", "Mar", "Apr", "May", "Jun", "Jul", "Aug", "Sep", "Oct", "Nov", "Dec"]

/-- `_ytab` -/
def ytab : List (List Nat) :=
  [[31, 28, 31, 30, 31, 30, 31, 31, 30, 31, 30, 31],
    [31, 29, 31, 30, 31, 30, 31, 31, 30, 31, 30, 31]]

theorem yearSize_pos (year : Nat) : 0 < yearSize year := by
  rw [yearSize]
  split <;> decide

def yearLoop (dayno year : Nat) : Nat × Nat :=
  if yearSize year ≤ dayno then yearLoop (dayno - yearSize year) (year + 1) else (dayno, year)
termination_by dayno
decreasing_by
  have := yearSize_pos year
  omega

/-- The loop over the months, along the rest of a row of `_ytab`: the day of the month and
the month, both from 0. -/
def monthLoop : List Nat → Nat → Nat → Option (Nat × Nat)
  | [], _, _ => none
  | len :: row, dayno, mon =>
    if len ≤ dayno then monthLoop row (dayno - len) (mon + 1) else some (dayno, mon)

def timeFormatSyslog : Int := 1
def timeFormatSorted : Int := 2

/-- An `unsigned` field handed to `sprintf`. -/
def arg (n : Nat) : Arg := .int (BitVec.ofNat 32 n)

/-- `format_time`: the text in `buf`. -/
def formatTime (sec : BitVec 64) (format : Int) : Option (List Char) := do
  let dayclock := (sec.setWidth 32).toNat % secsDay
  let dayno := (sec.setWidth 32).toNat / secsDay
  let tmSec := dayclock % 60
  let tmMin := dayclock % 3600 / 60
  let tmHour := dayclock / 3600
  let tmWday := (dayno + 4) % 7
  let (dayno, year) := yearLoop dayno epochYr
  let row ← ytab[(leapYear year).toNat]?
  let (dayno, tmMon) ← monthLoop row dayno 0
  let tmMday := dayno + 1
  if format = timeFormatSyslog then
    let month ← months[tmMon]?
    return sprintf "%s %2d %02d:%02d:%02d"
      [.str month.toList, arg tmMday, arg tmHour, arg tmMin, arg tmSec]
  else if format = timeFormatSorted then
    return sprintf "%4d-%02d-%02d-%02d:%02d:%02d"
      [arg year, arg (tmMon + 1), arg tmMday, arg tmHour, arg tmMin, arg tmSec]
  else
    let day ← days[tmWday]?
    let month ← months[tmMon]?
    return sprintf "%s, %s %d, %d, %02d:%02d:%02d"
      [.str day.toList, .str month.toList, arg tmMday, arg year, arg tmHour, arg tmMin, arg tmSec]

/-- What `format_time_int` gives through its pointers. -/
structure TimeInts where
  year : Nat
  month : Nat
  day : Nat
  hour : Nat
  min : Nat
  sec : Nat
  sbs : Nat
  diy : Nat
deriving DecidableEq, Repr

/-- `format_time_int` -/
def formatTimeInt (secIn : BitVec 64) : Option TimeInts := do
  let dayclock := (secIn.setWidth 32).toNat % secsDay
  let dayno := (secIn.setWidth 32).toNat / secsDay
  let tmSec := dayclock % 60
  let tmMin := dayclock % 3600 / 60
  let tmHour := dayclock / 3600
  let (diy, tmpYear) := yearLoop dayno epochYr
  let row ← ytab[(leapYear tmpYear).toNat]?
  let (dayno, tmMon) ← monthLoop row diy 0
  let tmMday := dayno + 1
  return { year := tmpYear, month := tmMon + 1, day := tmMday, hour := tmHour, min := tmMin,
           sec := tmSec, sbs := dayclock, diy := diy }

theorem yearLoop_spec (dayno year : Nat) : ∃ r y, yearLoop dayno year = (r, y) ∧ year ≤ y ∧
    ∑ i ∈ Finset.Ico year y, yearSize i + r = dayno ∧ r < yearSize y := by
  fun_induction yearLoop dayno year with
  | case1 dayno year hle ih =>
    obtain ⟨r, y, hrun, hy, hsum, hr⟩ := ih
    refine ⟨r, y, hrun, by omega, ?_, hr⟩
    rw [Finset.sum_eq_sum_Ico_succ_bot (by omega)]
    omega
  | case2 dayno year hlt =>
    refine ⟨dayno, year, rfl, Nat.le_refl year, ?_, not_le.mp hlt⟩
    rw [Finset.Ico_self, Finset.sum_empty, zero_add]

theorem leapYear_iff {year : Nat} (h : 1901 ≤ year) (h' : year < 2100) :
    leapYear year = decide (IsLeap year) := by
  rw [Bool.eq_iff_iff, decide_eq_true_iff, leapYear, beq_iff_eq]
  unfold IsLeap
  omega

theorem yearSize_eq {year : Nat} (h : 1901 ≤ year) (h' : year < 2100) :
    yearSize year = yearDays year := by
  rw [yearSize, yearDays, leapYear_iff h h']
  simp

theorem monthLoop_spec : ∀ (row : List Nat) (dayno mon : Nat), dayno < row.sum →
    ∃ k r, k < row.length ∧ monthLoop row dayno mon = some (r, mon + k) ∧
      (row.take k).sum + r = dayno ∧ r < row.getD k 0
  | [], dayno, mon, h => absurd h (not_lt_zero _)
  | len :: row, dayno, mon, h => by
    rw [sum_cons] at h
    rw [monthLoop]
    split
    · next hle =>
      obtain ⟨k, r, hk, hrun, hsum, hr⟩ := monthLoop_spec row (dayno - len) (mon + 1) (by omega)
      refine ⟨k + 1, r, succ_lt_succ hk, ?_, ?_, hr⟩
      · rw [hrun, add_assoc, add_comm 1]
      · rw [take_succ_cons, sum_cons]
        omega
    · next hlt => exact ⟨0, dayno, succ_pos _, rfl, zero_add _, not_le.mp hlt⟩

theorem ytab_row (year : Nat) : ytab[(decide (IsLeap year)).toNat]? =
    some ((List.range 12).map fun m => monthDays year (m + 1)) := by
  by_cases h : IsLeap year
  · simp [ytab, h, range_succ, monthDays]
  · simp [ytab, h, range_succ, monthDays]

theorem sum_months (year : Nat) : ∀ k,
    ((List.range k).map fun m => monthDays year (m + 1)).sum =
      ∑ m ∈ Finset.Ico 1 (k + 1), monthDays year m
  | 0 => rfl
  | k + 1 => by
    rw [range_succ, map_append, sum_append_nat, sum_months year k,
      Finset.sum_Ico_succ_top (le_add_left 1 k), map_singleton, sum_singleton]

theorem loops_date {n : Nat} (hn : n < 47482) : ∃ d : Date, d.days 1970 = n ∧ 1970 ≤ d.year ∧
    d.year < 2100 ∧ yearLoop n epochYr = (d.dayOfYear, d.year) ∧
      ∃ row, ytab[(leapYear d.year).toNat]? = some row ∧
        monthLoop row d.dayOfYear 0 = some (d.day - 1, d.month - 1) := by
  obtain ⟨r, y, hrun, hy, hsum, hr⟩ := yearLoop_spec n epochYr
  change 1970 ≤ y at hy
  have hbefore : y < 2100 := by
    refine not_le.mp fun hge => ?_
    have hle : ∑ i ∈ Finset.Ico 1970 2100, yearSize i ≤ ∑ i ∈ Finset.Ico epochYr y, yearSize i :=
      Finset.sum_le_sum_of_subset (Finset.Ico_subset_Ico_right hge)
    rw [show ∑ i ∈ Finset.Ico 1970 2100, yearSize i = 47482 by decide +kernel] at hle
    omega
  have hyears : ∑ i ∈ Finset.Ico epochYr y, yearSize i = ∑ i ∈ Finset.Ico 1970 y, yearDays i := by
    refine Finset.sum_congr rfl fun i hi => ?_
    have hmem := Finset.mem_Ico.mp hi
    exact yearSize_eq (by omega) (by omega)
  have hrow : ytab[(leapYear y).toNat]? =
      some ((List.range 12).map fun m => monthDays y (m + 1)) := by
    rw [leapYear_iff (by omega) hbefore]
    exact ytab_row y
  have hlt : r < ((List.range 12).map fun m => monthDays y (m + 1)).sum := by
    rw [sum_months, sum_monthDays, ← yearSize_eq (by omega) hbefore]
    exact hr
  obtain ⟨k, q, hk, hloop, hdays, hq⟩ := monthLoop_spec _ _ 0 hlt
  rw [length_map, length_range] at hk
  rw [← map_take, take_range, min_eq_left (by omega), sum_months] at hdays
  rw [List.getD_eq_getElem?_getD, List.getElem?_map, List.getElem?_range hk] at hq
  have hday : q + 1 ≤ monthDays y (k + 1) := hq
  have hdoy : ∑ m ∈ Finset.Ico 1 (k + 1), monthDays y m + (q + 1 - 1) = r := by omega
  refine ⟨⟨y, k + 1, q + 1, by omega, by omega, by omega, hday⟩, ?_, hy, hbefore, ?_, _, hrow, ?_⟩
  · rw [Date.days, Date.dayOfYear, hdoy, ← hyears]
    exact hsum
  · rw [Date.dayOfYear, hdoy]
    exact hrun
  · rw [Date.dayOfYear, hdoy, hloop, zero_add]
    rfl

/-- The time of the day `dayclock` seconds after its beginning. -/
def atSecond (d : Date) (dayclock : Nat) (h : dayclock < 86400) : DateTime where
  toDate := d
  hour := dayclock / 3600
  minute := dayclock % 3600 / 60
  second := dayclock % 60
  hour_lt := by omega
  minute_lt := by omega
  second_lt := by omega

theorem secondOfDay_atSecond (d : Date) {dayclock : Nat} (h : dayclock < 86400) :
    (atSecond d dayclock h).secondOfDay = dayclock := by
  change dayclock / 3600 * 3600 + dayclock % 3600 / 60 * 60 + dayclock % 60 = dayclock
  omega

/-- The weekday of a day after 1 January 1970, a Thursday. -/
def weekdayOf (n : Nat) : Weekday := Weekday.next^[n] .thursday

def clockText (t : DateTime) : List Char :=
  decimal '0' 2 t.hour ++ ':' :: (decimal '0' 2 t.minute ++ ':' :: decimal '0' 2 t.second)

def nameIn (table : List String) (i : Nat) : List Char := (table.getD i "").toList

def textOf (t : DateTime) (format : Int) : List Char :=
  if format = timeFormatSyslog then
    nameIn months (t.month - 1) ++ ' ' :: (decimal ' ' 2 t.day ++ ' ' :: clockText t)
  else if format = timeFormatSorted then
    decimal ' ' 4 t.year ++ '-' :: (decimal '0' 2 t.month ++ '-' :: (decimal '0' 2 t.day ++
      '-' :: clockText t))
  else
    nameIn days (weekdayOf (t.days 1970)).index ++ ", ".toList ++ nameIn months (t.month - 1) ++
      ' ' :: (decimal ' ' 0 t.day ++ ", ".toList ++ decimal ' ' 0 t.year ++ ", ".toList ++
        clockText t)

theorem sprintf_syslog (month : List Char) (d h m s : BitVec 32) :
    sprintf "%s %2d %02d:%02d:%02d" [.str month, .int d, .int h, .int m, .int s] =
      month ++ ' ' :: (printInt false 2 d ++ ' ' :: (printInt true 2 h ++ ':' ::
        (printInt true 2 m ++ ':' :: printInt true 2 s))) := by
  have hrun : sprintf "%s %2d %02d:%02d:%02d" [.str month, .int d, .int h, .int m, .int s] =
      Printf.string month (-1) (-1) {} ++ ' ' :: (printInt false 2 d ++ ' ' ::
        (printInt true 2 h ++ ':' :: (printInt true 2 m ++ ':' ::
          (printInt true 2 s ++ [])))) := rfl
  rw [hrun, string_plain, append_nil]

theorem sprintf_sorted (y mo d h m s : BitVec 32) :
    sprintf "%4d-%02d-%02d-%02d:%02d:%02d" [.int y, .int mo, .int d, .int h, .int m, .int s] =
      printInt false 4 y ++ '-' :: (printInt true 2 mo ++ '-' :: (printInt true 2 d ++ '-' ::
        (printInt true 2 h ++ ':' :: (printInt true 2 m ++ ':' :: printInt true 2 s)))) := by
  rw [← append_nil (printInt true 2 s)]
  rfl

theorem sprintf_legacy (day month : List Char) (d y h m s : BitVec 32) :
    sprintf "%s, %s %d, %d, %02d:%02d:%02d"
        [.str day, .str month, .int d, .int y, .int h, .int m, .int s] =
      day ++ ", ".toList ++ month ++ ' ' :: (printInt false (-1) d ++ ", ".toList ++
        printInt false (-1) y ++ ", ".toList ++ (printInt true 2 h ++ ':' ::
          (printInt true 2 m ++ ':' :: printInt true 2 s))) := by
  have hrun : sprintf "%s, %s %d, %d, %02d:%02d:%02d"
        [.str day, .str month, .int d, .int y, .int h, .int m, .int s] =
      Printf.string day (-1) (-1) {} ++ ',' :: ' ' :: (Printf.string month (-1) (-1) {} ++ ' ' ::
        (printInt false (-1) d ++ ',' :: ' ' :: (printInt false (-1) y ++ ',' :: ' ' ::
          (printInt true 2 h ++ ':' :: (printInt true 2 m ++ ':' ::
            (printInt true 2 s ++ [])))))) := rfl
  rw [hrun, string_plain, string_plain, append_nil]
  simp

/-- What `format_time_int` gives for a time. -/
def intsOf (t : DateTime) : TimeInts where
  year := t.year
  month := t.month
  day := t.day
  hour := t.hour
  min := t.minute
  sec := t.second
  sbs := t.secondOfDay
  diy := t.dayOfYear

theorem setWidth_toNat {sec : BitVec 64} (h : sec.toNat < 4102444800) :
    (sec.setWidth 32).toNat = sec.toNat := by
  rw [BitVec.toNat_setWidth]
  omega

/-- The date and time of a count of seconds, and what the code finds on the way to it. -/
structure Found (n : Nat) (t : DateTime) : Prop where
  seconds : t.seconds 1970 = n
  from1970 : 1970 ≤ t.year
  until2099 : t.year < 2100
  dayno : t.days 1970 = n / secsDay
  dayclock : t.secondOfDay = n % secsDay
  hour : t.hour = t.secondOfDay / 3600
  minute : t.minute = t.secondOfDay % 3600 / 60
  second : t.second = t.secondOfDay % 60
  year : yearLoop (n / secsDay) epochYr = (t.dayOfYear, t.year)
  month : ∃ row, ytab[(leapYear t.year).toNat]? = some row ∧
    monthLoop row t.dayOfYear 0 = some (t.day - 1, t.month - 1)

theorem exists_found {n : Nat} (hn : n < 4102444800) : ∃ t, Found n t := by
  have hday : n / secsDay < 47482 := Nat.div_lt_of_lt_mul hn
  have hclock : n % secsDay < 86400 := Nat.mod_lt n (by decide)
  obtain ⟨d, hdays, hfrom, huntil, hyear, hmonth⟩ := loops_date hday
  have hsecond := secondOfDay_atSecond d hclock
  refine ⟨atSecond d (n % secsDay) hclock, ?_, hfrom, huntil, hdays, hsecond, ?_, ?_, ?_, hyear,
    hmonth⟩
  · rw [DateTime.seconds, hsecond]
    change d.days 1970 * 86400 + n % secsDay = n
    rw [hdays]
    exact div_add_mod' n secsDay
  · rw [hsecond]
    rfl
  · rw [hsecond]
    rfl
  · rw [hsecond]
    rfl

section Found

variable {sec : BitVec 64} {t : DateTime}

theorem formatTimeInt_found (h : Found (sec.setWidth 32).toNat t) :
    formatTimeInt sec = some (intsOf t) := by
  obtain ⟨row, hrow, hmonth⟩ := h.month
  have hday : t.day - 1 + 1 = t.day := Nat.sub_add_cancel t.day_pos
  have hmon : t.month - 1 + 1 = t.month := Nat.sub_add_cancel t.month_pos
  simp only [formatTimeInt, h.year, hrow, hmonth, bind_eq_bind, bind_some, hday,
    hmon, ← h.dayclock, ← h.hour, ← h.minute, ← h.second]
  rfl

theorem getElem?_nameIn (table : List String) {i : Nat} (hi : i < table.length) :
    ∃ name, table[i]? = some name ∧ name.toList = nameIn table i :=
  ⟨table[i], List.getElem?_eq_getElem hi, by
    rw [nameIn, List.getD_eq_getElem?_getD, List.getElem?_eq_getElem hi, getD_some]⟩

theorem printInt_clock (t : DateTime) :
    printInt true 2 (BitVec.ofNat 32 t.hour) ++ ':' ::
        (printInt true 2 (BitVec.ofNat 32 t.minute) ++ ':' ::
          printInt true 2 (BitVec.ofNat 32 t.second)) = clockText t := by
  have hh := t.hour_lt
  have hm := t.minute_lt
  have hs := t.second_lt
  rw [printInt_ofNat (by omega), printInt_ofNat (by omega), printInt_ofNat (by omega)]
  rfl

theorem formatTime_found (h : Found (sec.setWidth 32).toNat t) (format : Int) :
    formatTime sec format = some (textOf t format) := by
  obtain ⟨row, hrow, hmonth⟩ := h.month
  have hday : t.day - 1 + 1 = t.day := Nat.sub_add_cancel t.day_pos
  have hmon : t.month - 1 + 1 = t.month := Nat.sub_add_cancel t.month_pos
  have hle := t.month_le
  have hdays := t.day_le
  have hlen : monthDays t.year t.month ≤ 31 := by
    unfold monthDays
    split
    · split <;> decide
    all_goals decide
  have hyear := h.until2099
  obtain ⟨month, hget, hname⟩ := getElem?_nameIn months
    (show t.month - 1 < months.length by change _ < 12; omega)
  simp only [formatTime, h.year, hrow, hmonth, bind_eq_bind, bind_some, hday,
    hmon, ← h.dayclock, ← h.hour, ← h.minute, ← h.second, hget, textOf]
  split
  · rw [arg, arg, arg, arg, sprintf_syslog, printInt_clock, printInt_ofNat (by omega), hname]
    rfl
  · split
    · rw [arg, arg, arg, arg, arg, arg, sprintf_sorted, printInt_clock, printInt_ofNat (by omega),
        printInt_ofNat (by omega), printInt_ofNat (by omega)]
      rfl
    · have hwday : (((sec.setWidth 32).toNat / secsDay + 4) % 7) =
          (weekdayOf (t.days 1970)).index := by
        rw [weekdayOf, Weekday.index_iterate, h.dayno, add_comm]
        rfl
      obtain ⟨day, hget', hname'⟩ := getElem?_nameIn days
        (show (weekdayOf (t.days 1970)).index < days.length by
          rw [← hwday]
          exact Nat.mod_lt _ (by decide))
      rw [hwday, hget', bind_some, arg, arg, arg, arg, arg, sprintf_legacy, printInt_clock,
        printInt_ofNat (by omega), printInt_ofNat (by omega), hname, hname']
      rfl

end Found

def TimeInts.fields (i : TimeInts) : List Nat := [i.year, i.month, i.day, i.hour, i.min, i.sec]

/-- **Dates are right.**  Before 2100 both functions give the Gregorian date and the time of
day, in every format, and the fields grow with the seconds. -/
theorem formatTime_civil :
    (∀ sec : BitVec 64, sec.toNat < 4102444800 → ∃ t : DateTime, t.seconds 1970 = sec.toNat ∧
      formatTimeInt sec = some (intsOf t) ∧
        ∀ format, formatTime sec format = some (textOf t format)) ∧
    (∀ sec sec' : BitVec 64, sec.toNat < sec'.toNat → sec'.toNat < 4102444800 →
      ∃ i i', formatTimeInt sec = some i ∧ formatTimeInt sec' = some i' ∧
        i.fields < i'.fields) := by
  have hfound : ∀ sec : BitVec 64, sec.toNat < 4102444800 →
      ∃ t, Found (sec.setWidth 32).toNat t ∧ t.seconds 1970 = sec.toNat := by
    intro sec hsec
    obtain ⟨t, ht⟩ := exists_found (n := (sec.setWidth 32).toNat) (by rwa [setWidth_toNat hsec])
    exact ⟨t, ht, ht.seconds.trans (setWidth_toNat hsec)⟩
  constructor
  · intro sec hsec
    obtain ⟨t, ht, hseconds⟩ := hfound sec hsec
    exact ⟨t, hseconds, formatTimeInt_found ht, formatTime_found ht⟩
  · intro sec sec' hlt hsec'
    obtain ⟨t, ht, hseconds⟩ := hfound sec (hlt.trans hsec')
    obtain ⟨t', ht', hseconds'⟩ := hfound sec' hsec'
    refine ⟨_, _, formatTimeInt_found ht, formatTimeInt_found ht', ?_⟩
    exact DateTime.fields_lt ht'.from1970 (by rwa [hseconds, hseconds'])

theorem formatTime_civil_leapDay : ∃ t : DateTime, t.seconds 1970 = 951868799 ∧
    formatTimeInt 951868799 = some (intsOf t) ∧
      ∀ format, formatTime 951868799 format = some (textOf t format) :=
  formatTime_civil.1 951868799 (by decide)

end Wrpc.Time
