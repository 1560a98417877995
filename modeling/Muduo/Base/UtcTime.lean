import Muduo.Base.Date
import Muduo.Base.TimeZone

namespace Muduo.Base
open Muduo.Lib Muduo.Net

def kSecondsPerDay : Int := 24 * 60 * 60

/-- `static_cast<int>` of a `time_t`. -/
def castInt (i : Int) : Int := i.bmod (2 ^ 32)

/-- An `int` where an `unsigned` is expected. -/
def castUnsigned (i : Int) : Nat := (i % 2 ^ 32).toNat

def fillHMS (seconds : Nat) (utc : BrokenDown) : BrokenDown :=
  let minutes := seconds / 60
  { utc with
    tm_sec := (seconds % 60 : Nat)
    tm_min := (minutes % 60 : Nat)
    tm_hour := (minutes / 60 : Nat) }

namespace TimeZone

/-- The days and the seconds of the day, with the correction for times before 1970. -/
def daysAndSeconds (secondsSinceEpoch : Int) : Except Fault (Int × Int) :=
  let seconds := castInt (secondsSinceEpoch.tmod kSecondsPerDay)
  let days := castInt (secondsSinceEpoch.tdiv kSecondsPerDay)
  if seconds < 0 then do
    return (← int (days - 1), ← int (seconds + kSecondsPerDay))
  else
    return (days, seconds)

def toUtcTime (secondsSinceEpoch : Int) (yday : Bool) : Except Fault BrokenDown := do
  let utc : BrokenDown := ⟨0, 0, 0, 0, 0, 0, 0, 0⟩
  let (days, seconds) ← daysAndSeconds secondsSinceEpoch
  let utc := fillHMS (castUnsigned seconds) utc
  let date : Date := ⟨← int (days + Date.kJulianDayOf1970_01_01)⟩
  let ymd ← date.yearMonthDay
  let year ← int (ymd.year - 1900)
  let month ← int (ymd.month - 1)
  let weekDay ← date.weekDay
  let utc := { utc with tm_year := year, tm_mon := month, tm_mday := ymd.day, tm_wday := weekDay }
  if yday then
    let startOfYear ← Date.ofYearMonthDay ymd.year 1 1
    return { utc with tm_yday := ← int (date.julianDayNumber_ - startOfYear.julianDayNumber_) }
  else
    return utc

/-- `fromUtcTime(int year, int month, int day, int hour, int minute, int seconds)`. -/
def fromUtcFields (year month day hour minute seconds : Int) : Except Fault Int := do
  let date ← Date.ofYearMonthDay year month day
  let secondsInDay ← int ((← int ((← int (hour * 3600)) + (← int (minute * 60)))) + seconds)
  let days ← int (date.julianDayNumber_ - Date.kJulianDayOf1970_01_01)
  return days * kSecondsPerDay + secondsInDay

def fromUtcTime (utc : BrokenDown) : Except Fault Int := do
  fromUtcFields (← int (utc.tm_year + 1900)) (← int (utc.tm_mon + 1)) utc.tm_mday
    utc.tm_hour utc.tm_min utc.tm_sec

variable {t n : Int} {date : Gregorian.Date}

/-- The Julian day number of a time. -/
def julianDayOf (t : Int) : Int := t / kSecondsPerDay + Date.kJulianDayOf1970_01_01

theorem castInt_of_lt (h : -2 ^ 31 ≤ n) (h' : n < 2 ^ 31) : castInt n = n := by
  unfold castInt
  rw [Int.bmod_eq_of_le (by omega) (by omega)]

theorem castUnsigned_of_lt (h : 0 ≤ n) (h' : n < 2 ^ 32) : castUnsigned n = n.toNat := by
  unfold castUnsigned
  rw [Int.emod_eq_of_lt h h']

theorem fillHMS_eq (hlow : 0 ≤ n) (hhigh : n < 86400) (utc : BrokenDown) :
    fillHMS (castUnsigned n) utc =
      { utc with tm_sec := n % 60, tm_min := n / 60 % 60, tm_hour := n / 3600 } := by
  obtain ⟨k, rfl⟩ := Int.eq_ofNat_of_zero_le hlow
  rw [castUnsigned_of_lt hlow (by omega), Int.toNat_natCast]
  simp only [fillHMS, BrokenDown.mk.injEq, and_true]
  omega

/-- The truncated quotient and remainder, once corrected, are those of the floor. -/
theorem daysAndSeconds_eq (hlow : 0 ≤ julianDayOf t) (hhigh : julianDayOf t ≤ maxJulianDay) :
    daysAndSeconds t = .ok (t / kSecondsPerDay, t % kSecondsPerDay) := by
  rw [julianDayOf, Date.kJulianDayOf1970_01_01_eq] at hlow hhigh
  unfold maxJulianDay at hhigh
  have hmod := Int.emod_nonneg t (by decide : kSecondsPerDay ≠ 0)
  have hlt : t % kSecondsPerDay < 86400 := Int.emod_lt_of_pos t (by decide)
  by_cases hfloor : 0 ≤ t ∨ kSecondsPerDay ∣ t
  · have hrest : t.tmod kSecondsPerDay = t % kSecondsPerDay := by
      rw [Int.tmod_eq_emod, if_pos hfloor]
      exact Int.sub_zero _
    have hdays : t.tdiv kSecondsPerDay = t / kSecondsPerDay := by
      rw [Int.tdiv_eq_ediv, if_pos hfloor, Int.add_zero]
    simp only [daysAndSeconds]
    rw [hrest, hdays, castInt_of_lt (by omega) (by omega), castInt_of_lt (by omega) (by omega),
      if_neg (by omega)]
    rfl
  · have hday : kSecondsPerDay = 86400 := by decide
    have hrest : t.tmod kSecondsPerDay = t % kSecondsPerDay - kSecondsPerDay := by
      rw [Int.tmod_eq_emod, if_neg hfloor]
      rfl
    have hdays : t.tdiv kSecondsPerDay = t / kSecondsPerDay + 1 := by
      rw [Int.tdiv_eq_ediv, if_neg hfloor]
      rfl
    simp only [daysAndSeconds]
    rw [hrest, hdays, castInt_of_lt (by omega) (by omega), castInt_of_lt (by omega) (by omega),
      if_pos (by omega), int_bind (by omega), int_bind (by omega), Int.sub_add_cancel,
      Int.add_sub_cancel]
    rfl

/-- What `toUtcTime` makes of the day and of the second of the day. -/
def utcFields (t : Int) (date : Gregorian.Date) (yday : Bool) : BrokenDown where
  tm_sec := t % 86400 % 60
  tm_min := t % 86400 / 60 % 60
  tm_hour := t % 86400 / 3600
  tm_mday := date.day
  tm_mon := date.month - 1
  tm_year := date.year - 1900
  tm_wday := (julianDayOf t + 1) % 7
  tm_yday := if yday then date.dayOfYear else 0

theorem toUtcTime_eq (hlow : 0 ≤ julianDayOf t) (hhigh : julianDayOf t ≤ maxJulianDay)
    (yday : Bool) (hdate : Gregorian.ofDayNumber (julianDayOf t + julianEpoch) = date) :
    toUtcTime t yday = .ok (utcFields t date yday) := by
  have hn : t / kSecondsPerDay + Date.kJulianDayOf1970_01_01 = julianDayOf t := rfl
  have hmax := hhigh
  unfold maxJulianDay at hmax
  have hvalid : date.Valid := hdate ▸ Gregorian.ofDayNumber_valid _
  have hday : julianDay date = julianDayOf t := by
    rw [julianDay, ← hdate, Gregorian.dayNumber_ofDayNumber, Int.add_sub_cancel]
  have hyear := year_bounds hvalid (hday ▸ hlow) (hday ▸ hhigh)
  have hmonth := hvalid.month
  have hymd := getYearMonthDay_eq hlow hhigh
  rw [hdate] at hymd
  have hweek : (julianDayOf t + 1).tmod Date.kDaysPerWeek = (julianDayOf t + 1) % 7 :=
    Int.tmod_eq_emod_of_nonneg (by omega)
  have hsecond := fillHMS_eq (Int.emod_nonneg t (by decide : kSecondsPerDay ≠ 0))
    (Int.emod_lt_of_pos t (by decide : 0 < kSecondsPerDay))
  simp only [toUtcTime, daysAndSeconds_eq hlow hhigh, ok_bind, hn, hsecond]
  rw [int_bind (by omega)]
  simp only [Date.yearMonthDay, hymd, ok_bind, Date.weekDay]
  rw [int_bind (by omega), int_bind (by omega), int_bind (by omega), hweek]
  cases yday with
  | false => rfl
  | true =>
    have hnew := Gregorian.dayNumber_newYear hvalid
    have hbounds := Gregorian.dayOfYear_bounds hvalid
    have hdiff : julianDayOf t - julianDay ⟨date.year, 1, 1⟩ = date.dayOfYear := by
      rw [← hday, julianDay, julianDay]
      omega
    simp only [if_true, Date.ofYearMonthDay,
      getJulianDayNumber_eq (Gregorian.newYear_valid date.year) hyear.1 hyear.2, pure_bind, ok_bind]
    rw [hdiff, int_bind (by omega)]
    rfl

theorem fromUtcFields_eq (h : date.Valid) (hlow : 0 ≤ julianDay date)
    (hhigh : julianDay date ≤ maxJulianDay) {hour minute seconds : Int}
    (hhour : 0 ≤ hour ∧ hour ≤ 23) (hminute : 0 ≤ minute ∧ minute ≤ 59)
    (hseconds : 0 ≤ seconds ∧ seconds ≤ 59) :
    fromUtcFields date.year date.month date.day hour minute seconds =
      .ok ((julianDay date - Date.kJulianDayOf1970_01_01) * 86400 +
        (hour * 3600 + minute * 60 + seconds)) := by
  have hyear := year_bounds h hlow hhigh
  have hepoch := Date.kJulianDayOf1970_01_01_eq
  unfold maxJulianDay at hhigh
  simp only [fromUtcFields, Date.ofYearMonthDay, getJulianDayNumber_eq h hyear.1 hyear.2, ok_bind,
    pure_bind]
  rw [int_bind (by omega), int_bind (by omega), int_bind (by omega), int_bind (by omega),
    int_bind (by omega)]
  rfl

/-- Hour, minute and second, the day of the calendar, of the week and of the year. -/
structure Civil (tm : BrokenDown) (t : Int) : Prop where
  hour : 0 ≤ tm.tm_hour ∧ tm.tm_hour ≤ 23
  minute : 0 ≤ tm.tm_min ∧ tm.tm_min ≤ 59
  second : 0 ≤ tm.tm_sec ∧ tm.tm_sec ≤ 59
  date : Gregorian.Date.Valid ⟨tm.tm_year + 1900, tm.tm_mon + 1, tm.tm_mday⟩
  weekDay : tm.tm_wday = (4 + t / 86400) % 7
  yearDay : tm.tm_yday =
    Gregorian.Date.dayOfYear ⟨tm.tm_year + 1900, tm.tm_mon + 1, tm.tm_mday⟩

theorem utcFields_civil (hvalid : date.Valid) : Civil (utcFields t date true) t := by
  have hyear : date.year - 1900 + 1900 = date.year := by omega
  have hmonth : date.month - 1 + 1 = date.month := by omega
  have hweek : (julianDayOf t + 1) % 7 = (4 + t / 86400) % 7 := by
    have hday : kSecondsPerDay = 86400 := by decide
    rw [julianDayOf, Date.kJulianDayOf1970_01_01_eq, hday]
    omega
  refine ⟨?_, ?_, ?_, ?_, hweek, ?_⟩
  · simp only [utcFields]
    omega
  · simp only [utcFields]
    omega
  · simp only [utcFields]
    omega
  · simp only [utcFields, hyear, hmonth]
    exact hvalid
  · simp only [utcFields, hyear, hmonth, if_true]

/-- The date and the time of day in a `struct tm`. -/
structure Shows (tm : BrokenDown) (date : Gregorian.Date) (hour minute seconds : Int) : Prop where
  year : tm.tm_year + 1900 = date.year
  month : tm.tm_mon + 1 = date.month
  day : tm.tm_mday = date.day
  hour : tm.tm_hour = hour
  minute : tm.tm_min = minute
  second : tm.tm_sec = seconds

theorem Shows.fromUtcTime_eq {tm : BrokenDown} {hour minute seconds : Int}
    (h : Shows tm date hour minute seconds) (hvalid : date.Valid) (hlow : 0 ≤ julianDay date)
    (hhigh : julianDay date ≤ maxJulianDay) :
    fromUtcTime tm = fromUtcFields date.year date.month date.day hour minute seconds := by
  have hyear := year_bounds hvalid hlow hhigh
  have hmonth := hvalid.month
  have hy := h.year
  have hm := h.month
  rw [fromUtcTime, int_bind (by omega), int_bind (by omega), h.year, h.month, h.day, h.hour,
    h.minute, h.second]

theorem utcFields_shows (t : Int) (date : Gregorian.Date) (yday : Bool) :
    Shows (utcFields t date yday) date (t % 86400 / 3600) (t % 86400 / 60 % 60)
      (t % 86400 % 60) := by
  refine ⟨?_, ?_, rfl, rfl, rfl, rfl⟩
  · simp only [utcFields]
    omega
  · simp only [utcFields]
    omega

/-- From a time to its fields and back. -/
theorem time_round_trip (hlow : 0 ≤ julianDayOf t) (hhigh : julianDayOf t ≤ maxJulianDay)
    (yday : Bool) : (toUtcTime t yday >>= fromUtcTime) = .ok t := by
  obtain ⟨date, hdate⟩ : ∃ date, Gregorian.ofDayNumber (julianDayOf t + julianEpoch) = date :=
    ⟨_, rfl⟩
  have hvalid : date.Valid := hdate ▸ Gregorian.ofDayNumber_valid _
  have hday : julianDay date = julianDayOf t := by
    rw [julianDay, ← hdate, Gregorian.dayNumber_ofDayNumber, Int.add_sub_cancel]
  rw [← hday] at hlow hhigh
  rw [toUtcTime_eq (hday ▸ hlow) (hday ▸ hhigh) yday hdate, ok_bind,
    (utcFields_shows t date yday).fromUtcTime_eq hvalid hlow hhigh,
    fromUtcFields_eq hvalid hlow hhigh (by omega) (by omega) (by omega), hday, julianDayOf]
  have hseconds : kSecondsPerDay = 86400 := by decide
  rw [hseconds, Int.add_sub_cancel]
  congr 1
  omega

/-- From a date and a time of day to the time and back. -/
theorem fields_round_trip (hvalid : date.Valid) (hlow : 0 ≤ julianDay date)
    (hhigh : julianDay date ≤ maxJulianDay) {hour minute seconds : Int}
    (hhour : 0 ≤ hour ∧ hour ≤ 23) (hminute : 0 ≤ minute ∧ minute ≤ 59)
    (hseconds : 0 ≤ seconds ∧ seconds ≤ 59) :
    ∃ t, fromUtcFields date.year date.month date.day hour minute seconds = .ok t ∧
      (∀ tm, Shows tm date hour minute seconds → fromUtcTime tm = .ok t) ∧
      ∀ yday, ∃ tm, toUtcTime t yday = .ok tm ∧ Shows tm date hour minute seconds := by
  have hfields := fromUtcFields_eq hvalid hlow hhigh hhour hminute hseconds
  refine ⟨_, hfields, fun tm htm => ?_, fun yday => ?_⟩
  · rw [htm.fromUtcTime_eq hvalid hlow hhigh, hfields]
  · generalize htime : (julianDay date - Date.kJulianDayOf1970_01_01) * 86400 +
      (hour * 3600 + minute * 60 + seconds) = t
    have hday : julianDayOf t = julianDay date := by
      have hspd : kSecondsPerDay = 86400 := by decide
      rw [julianDayOf, hspd]
      omega
    have hdate : Gregorian.ofDayNumber (julianDayOf t + julianEpoch) = date := by
      rw [hday, julianDay, Int.sub_add_cancel, Gregorian.ofDayNumber_dayNumber hvalid]
    have hshows := utcFields_shows t date yday
    have hh : t % 86400 / 3600 = hour := by omega
    have hm : t % 86400 / 60 % 60 = minute := by omega
    have hs : t % 86400 % 60 = seconds := by omega
    rw [hh, hm, hs] at hshows
    exact ⟨_, toUtcTime_eq (hday ▸ hlow) (hday ▸ hhigh) yday hdate, hshows⟩

/-- Broken-down time in UTC, for every time and every date whose Julian day number is not negative
and does not overflow. -/
theorem utc_round_trips :
    (∀ t, 0 ≤ julianDayOf t → julianDayOf t ≤ maxJulianDay →
      ∃ tm, toUtcTime t true = .ok tm ∧ Civil tm t ∧
        ∀ yday, (toUtcTime t yday >>= fromUtcTime) = .ok t) ∧
    ∀ (date : Gregorian.Date) (hour minute seconds : Int), date.Valid → 0 ≤ julianDay date →
      julianDay date ≤ maxJulianDay → 0 ≤ hour ∧ hour ≤ 23 → 0 ≤ minute ∧ minute ≤ 59 →
      0 ≤ seconds ∧ seconds ≤ 59 →
      ∃ t, fromUtcFields date.year date.month date.day hour minute seconds = .ok t ∧
        (∀ tm, Shows tm date hour minute seconds → fromUtcTime tm = .ok t) ∧
        ∀ yday, ∃ tm, toUtcTime t yday = .ok tm ∧ Shows tm date hour minute seconds := by
  refine ⟨fun t hlow hhigh => ?_, fun date hour minute seconds hvalid hlow hhigh => ?_⟩
  · exact ⟨_, toUtcTime_eq hlow hhigh true rfl,
      utcFields_civil (Gregorian.ofDayNumber_valid _), time_round_trip hlow hhigh⟩
  · exact fields_round_trip hvalid hlow hhigh

/-- The last second of 1969, and the leap day of 2000. -/
theorem utc_round_trips_sample :
    (∃ tm, toUtcTime (-1) true = .ok tm ∧ Civil tm (-1) ∧
      ∀ yday, (toUtcTime (-1) yday >>= fromUtcTime) = .ok (-1)) ∧
    ∃ t, fromUtcFields 2000 2 29 23 59 59 = .ok t ∧
      (∀ tm, Shows tm ⟨2000, 2, 29⟩ 23 59 59 → fromUtcTime tm = .ok t) ∧
      ∀ yday, ∃ tm, toUtcTime t yday = .ok tm ∧ Shows tm ⟨2000, 2, 29⟩ 23 59 59 :=
  ⟨utc_round_trips.1 (-1) (by decide) (by decide),
    utc_round_trips.2 ⟨2000, 2, 29⟩ 23 59 59 ⟨by decide, by decide⟩ (by decide) (by decide)
      (by decide) (by decide) (by decide)⟩

end TimeZone

end Muduo.Base
