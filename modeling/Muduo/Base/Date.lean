import Muduo.Lib.Gregorian
import Muduo.Net.Basic

namespace Muduo.Base
open Muduo.Lib Muduo.Net

/-- The value of an `int` expression, which is undefined where it does not fit. -/
def int (i : Int) : Except Fault Int :=
  if -2 ^ 31 ≤ i ∧ i < 2 ^ 31 then .ok i else .error .overflow

def getJulianDayNumber (year month day : Int) : Except Fault Int := do
  let a := (← int (14 - month)).tdiv 12
  let y ← int ((← int (year + 4800)) - a)
  let m ← int ((← int (month + (← int (12 * a)))) - 3)
  let n ← int (day + (← int ((← int (153 * m)) + 2)).tdiv 5)
  let n ← int (n + (← int (y * 365)))
  let n ← int (n + y.tdiv 4)
  let n ← int (n - y.tdiv 100)
  let n ← int (n + y.tdiv 400)
  int (n - 32045)

abbrev YearMonthDay := Gregorian.Date

def getYearMonthDay (julianDayNumber : Int) : Except Fault YearMonthDay := do
  let a ← int (julianDayNumber + 32044)
  let b := (← int ((← int (4 * a)) + 3)).tdiv 146097
  let c ← int (a - (← int (b * 146097)).tdiv 4)
  let d := (← int ((← int (4 * c)) + 3)).tdiv 1461
  let e ← int (c - (← int (1461 * d)).tdiv 4)
  let m := (← int ((← int (5 * e)) + 2)).tdiv 153
  let day ← int ((← int (e - (← int ((← int (153 * m)) + 2)).tdiv 5)) + 1)
  let month ← int ((← int (m + 3)) - (← int (12 * m.tdiv 10)))
  let year ← int ((← int ((← int ((← int (b * 100)) + d)) - 4800)) + m.tdiv 10)
  return ⟨year, month, day⟩

structure Date where
  julianDayNumber_ : Int

namespace Date

def kDaysPerWeek : Int := 7

def kJulianDayOf1970_01_01 : Int :=
  match getJulianDayNumber 1970 1 1 with
  | .ok n => n
  | .error _ => 0

theorem kJulianDayOf1970_01_01_eq : kJulianDayOf1970_01_01 = 2440588 := by decide

/-- `Date(int year, int month, int day)`. -/
def ofYearMonthDay (year month day : Int) : Except Fault Date := do
  return ⟨← getJulianDayNumber year month day⟩

variable (date : Date)

def yearMonthDay : Except Fault YearMonthDay := getYearMonthDay date.julianDayNumber_

def weekDay : Except Fault Int := do
  return (← int (date.julianDayNumber_ + 1)).tmod kDaysPerWeek

end Date

variable {α : Type} {i n b d e m : Int}

theorem int_bind {k : Int → Except Fault α} (h : -2 ^ 31 ≤ i ∧ i < 2 ^ 31) :
    (int i >>= k) = k i := by
  rw [int, if_pos h, ok_bind]

theorem int_overflow (h : 2 ^ 31 ≤ i) : int i = .error .overflow :=
  if_neg fun hin => by omega

/-- The last day at which `getYearMonthDay` does not overflow. -/
def maxJulianDay : Int := 536838867

theorem getYearMonthDay_overflow (h : maxJulianDay < n) :
    getYearMonthDay n = .error .overflow := by
  unfold maxJulianDay at h
  unfold getYearMonthDay
  by_cases ha : n + 32044 < 2 ^ 31
  · rw [int_bind ⟨by omega, ha⟩, int_overflow (by omega), error_bind]
  · rw [int_overflow (Int.not_lt.mp ha), error_bind]

theorem getYearMonthDay_parts (h : Gregorian.Split (n + 32044) b d e m) (hlow : 0 ≤ n)
    (hhigh : n ≤ maxJulianDay) : getYearMonthDay n =
      .ok ⟨100 * b + d - 4800 + m / 10, m + 3 - 12 * (m / 10), e - (153 * m + 2) / 5 + 1⟩ := by
  unfold maxJulianDay at hhigh
  have hd := h.year
  have he := h.day
  have hm := h.month
  have hsum := h.sum
  have hb : 0 ≤ b ∧ b ≤ 14699 := by omega
  have hcentury : (4 * (n + 32044) + 3).tdiv 146097 = b := by
    rw [Int.tdiv_eq_ediv_of_nonneg (by omega), h.century_eq]
  have hrest : n + 32044 - (b * 146097).tdiv 4 = 365 * d + d / 4 + e := by
    rw [Int.tdiv_eq_ediv_of_nonneg (by omega), Int.mul_comm b, h.rest_eq]
  have hyear : (4 * (365 * d + d / 4 + e) + 3).tdiv 1461 = d := by
    rw [Int.tdiv_eq_ediv_of_nonneg (by omega), h.year_eq]
  have hday : 365 * d + d / 4 + e - (1461 * d).tdiv 4 = e := by
    rw [Int.tdiv_eq_ediv_of_nonneg (by omega), h.day_eq]
  have hmonth : (5 * e + 2).tdiv 153 = m := by
    rw [Int.tdiv_eq_ediv_of_nonneg (by omega), h.month_eq]
  have hstart : (153 * m + 2).tdiv 5 = (153 * m + 2) / 5 := Int.tdiv_eq_ediv_of_nonneg (by omega)
  have hturn : m.tdiv 10 = m / 10 := Int.tdiv_eq_ediv_of_nonneg (by omega)
  unfold getYearMonthDay
  rw [int_bind, int_bind, int_bind]
  simp only [hcentury]
  rw [int_bind, hrest, int_bind, int_bind, int_bind]
  simp only [hyear]
  rw [int_bind, hday, int_bind, int_bind, int_bind]
  simp only [hmonth]
  rw [int_bind, int_bind, hstart, int_bind, int_bind, hturn, int_bind, int_bind, int_bind, int_bind,
    int_bind, int_bind, int_bind, Int.mul_comm b 100]
  · rfl
  all_goals omega

/-- What a Julian day number counts from, as the first of March of year 0. -/
def julianEpoch : Int := -1721120

/-- The Julian day number of a day of the calendar. -/
def julianDay (date : Gregorian.Date) : Int := Gregorian.dayNumber date - julianEpoch

/-- The algorithm finds the day of the calendar that has the number. -/
theorem getYearMonthDay_eq (hlow : 0 ≤ n) (hhigh : n ≤ maxJulianDay) :
    getYearMonthDay n = .ok (Gregorian.ofDayNumber (n + julianEpoch)) := by
  obtain ⟨b, d, e, m, hsplit, heq⟩ := Gregorian.exists_split (n + 32044)
  have hcycle := Gregorian.ofDayNumber_cycle (n + julianEpoch) 12
  have hshift : n + julianEpoch + 146097 * 12 = n + 32044 := by
    unfold julianEpoch
    omega
  rw [hshift, heq] at hcycle
  rw [getYearMonthDay_parts hsplit hlow hhigh]
  obtain ⟨hyear, hmonth, hday⟩ := Gregorian.Date.mk.inj hcycle
  have hyear' : 100 * b + d - 4800 + m / 10 =
      (Gregorian.ofDayNumber (n + julianEpoch)).year := by omega
  have hday' : e - (153 * m + 2) / 5 + 1 = (Gregorian.ofDayNumber (n + julianEpoch)).day := hday
  rw [hyear', hmonth, hday']

/-- From one number to the next the date moves on to the next day. -/
theorem getYearMonthDay_next (hlow : 0 ≤ n) (hhigh : n + 1 ≤ maxJulianDay) :
    getYearMonthDay (n + 1) = (getYearMonthDay n).map Gregorian.Date.next := by
  have hshift : n + 1 + julianEpoch = n + julianEpoch + 1 := Int.add_right_comm n 1 julianEpoch
  rw [getYearMonthDay_eq (by omega) hhigh, getYearMonthDay_eq hlow (by omega), hshift,
    Gregorian.ofDayNumber_next]
  rfl

theorem getJulianDayNumber_eq {date : Gregorian.Date} (h : date.Valid) (hlow : -4799 ≤ date.year)
    (hhigh : date.year ≤ 2000000) :
    getJulianDayNumber date.year date.month date.day = .ok (julianDay date) := by
  obtain ⟨year, month, day⟩ := date
  obtain ⟨hmonth, hfirst, hlast⟩ := Gregorian.Date.valid_iff.mp h
  have hlen := Gregorian.monthLength_bounds year month
  simp only at hlow hhigh
  have ha : (14 - month).tdiv 12 = (14 - month) / 12 := Int.tdiv_eq_ediv_of_nonneg (by omega)
  simp only [julianDay, Gregorian.dayNumber, Gregorian.yearDays, Gregorian.monthDays, julianEpoch]
  unfold getJulianDayNumber
  rw [int_bind]
  simp only [ha]
  generalize haa : (14 - month) / 12 = a
  have hy : 0 ≤ year + 4800 - a := by omega
  have hm : 0 ≤ month + 12 * a - 3 ∧ month + 12 * a - 3 ≤ 11 := by omega
  have hstart : (153 * (month + 12 * a - 3) + 2).tdiv 5 = (153 * (month + 12 * a - 3) + 2) / 5 :=
    Int.tdiv_eq_ediv_of_nonneg (by omega)
  rw [int_bind, int_bind, int_bind, int_bind, int_bind, int_bind, int_bind, hstart, int_bind,
    int_bind, int_bind, Int.tdiv_eq_ediv_of_nonneg hy, Int.tdiv_eq_ediv_of_nonneg hy,
    Int.tdiv_eq_ediv_of_nonneg hy, int_bind, int_bind, int_bind, int, if_pos]
  · congr 1
    omega
  all_goals omega

/-- The years of the days that have a number. -/
theorem year_bounds {date : Gregorian.Date} (h : date.Valid) (hlow : 0 ≤ julianDay date)
    (hhigh : julianDay date ≤ maxJulianDay) : -4799 ≤ date.year ∧ date.year ≤ 2000000 := by
  obtain ⟨year, month, day⟩ := date
  obtain ⟨hmonth, hday⟩ := Gregorian.Date.valid_iff.mp h
  have hlen := Gregorian.monthLength_bounds year month
  unfold maxJulianDay at hhigh
  simp only [julianDay, Gregorian.dayNumber, Gregorian.yearDays, Gregorian.monthDays,
    julianEpoch] at hlow hhigh
  generalize haa : (14 - month) / 12 = a at hlow hhigh
  have ha : 0 ≤ a ∧ a ≤ 1 := by omega
  have hm : 0 ≤ (153 * (month + 12 * a - 3) + 2) / 5 ∧
      (153 * (month + 12 * a - 3) + 2) / 5 ≤ 337 := by omega
  generalize (153 * (month + 12 * a - 3) + 2) / 5 = days at hlow hhigh hm
  simp only
  omega

/-- The checked computation gives the value, or it overflows on the way. -/
def Exact (x : Except Fault α) (a : α) : Prop := x = .ok a ∨ x = .error .overflow

theorem exact_int (i : Int) : Exact (int i) i := by
  by_cases h : -2 ^ 31 ≤ i ∧ i < 2 ^ 31
  · exact Or.inl (if_pos h)
  · exact Or.inr (if_neg h)

theorem Exact.bind {β : Type} {x : Except Fault α} {k : α → Except Fault β} {a : α} {r : β}
    (hx : Exact x a) (hk : Exact (k a) r) : Exact (x >>= k) r := by
  cases hx with
  | inl hok => simpa [hok] using hk
  | inr hover => simp [Exact, hover]

/-- Whatever the year is, the result is the number of the day where there is one at all. -/
theorem getJulianDayNumber_exact {date : Gregorian.Date} (h : date.Valid)
    (hlow : -4799 ≤ date.year) :
    Exact (getJulianDayNumber date.year date.month date.day) (julianDay date) := by
  obtain ⟨year, month, day⟩ := date
  obtain ⟨hmonth, -⟩ := Gregorian.Date.valid_iff.mp h
  simp only at hlow
  have ha : (14 - month).tdiv 12 = (14 - month) / 12 := Int.tdiv_eq_ediv_of_nonneg (by omega)
  have hy : 0 ≤ year + 4800 - (14 - month) / 12 := by omega
  have hstart : 0 ≤ 153 * (month + 12 * ((14 - month) / 12) - 3) + 2 := by omega
  unfold getJulianDayNumber
  iterate 14 refine (exact_int _).bind ?_
  have hvalue := exact_int (julianDay ⟨year, month, day⟩)
  simp only [ha, Int.tdiv_eq_ediv_of_nonneg hy, Int.tdiv_eq_ediv_of_nonneg hstart]
  convert hvalue using 2
  simp only [julianDay, Gregorian.dayNumber, Gregorian.yearDays, Gregorian.monthDays, julianEpoch]
  omega

/-- The years from -4712 on begin after the days are numbered from. -/
theorem julianDay_nonneg {date : Gregorian.Date} (h : date.Valid) (hlow : -4712 ≤ date.year) :
    0 ≤ julianDay date := by
  obtain ⟨year, month, day⟩ := date
  obtain ⟨hmonth, hday, -⟩ := Gregorian.Date.valid_iff.mp h
  simp only [julianDay, Gregorian.dayNumber, Gregorian.yearDays, Gregorian.monthDays, julianEpoch]
  simp only at hlow
  generalize haa : (14 - month) / 12 = a
  have hm : 0 ≤ (153 * (month + 12 * a - 3) + 2) / 5 := by omega
  have ha : a ≤ 1 := by omega
  omega

/-- To the number and back: the day itself, up to the last number at which `int` is wide
enough. -/
theorem getYearMonthDay_getJulianDayNumber {date : Gregorian.Date} (h : date.Valid)
    (hlow : -4712 ≤ date.year) :
    (getJulianDayNumber date.year date.month date.day >>= getYearMonthDay) =
      if julianDay date ≤ maxJulianDay then .ok date else .error .overflow := by
  have hnonneg := julianDay_nonneg h hlow
  by_cases hhigh : julianDay date ≤ maxJulianDay
  · obtain ⟨hfirst, hlast⟩ := year_bounds h hnonneg hhigh
    have hback : julianDay date + julianEpoch = Gregorian.dayNumber date := Int.sub_add_cancel _ _
    rw [getJulianDayNumber_eq h hfirst hlast, ok_bind, getYearMonthDay_eq hnonneg hhigh, hback,
      Gregorian.ofDayNumber_dayNumber h, if_pos hhigh]
  · have hexact := getJulianDayNumber_exact h (by omega)
    rw [if_neg hhigh]
    cases hexact with
    | inl hok => rw [hok, ok_bind, getYearMonthDay_overflow (Int.not_le.mp hhigh)]
    | inr hover => rw [hover, error_bind]

/-- To the day and back: the number itself. -/
theorem getJulianDayNumber_getYearMonthDay (hlow : 0 ≤ n) (hhigh : n ≤ maxJulianDay) :
    ∃ date, getYearMonthDay n = .ok date ∧ date.Valid ∧
      getJulianDayNumber date.year date.month date.day = .ok n := by
  have hvalid := Gregorian.ofDayNumber_valid (n + julianEpoch)
  have hday : julianDay (Gregorian.ofDayNumber (n + julianEpoch)) = n := by
    rw [julianDay, Gregorian.dayNumber_ofDayNumber, Int.add_sub_cancel]
  obtain ⟨hfirst, hlast⟩ := year_bounds hvalid (by omega) (by omega)
  refine ⟨_, getYearMonthDay_eq hlow hhigh, hvalid, ?_⟩
  rw [getJulianDayNumber_eq hvalid hfirst hlast, hday]

/-- The numbers of the days and the days of the calendar correspond one to one, in order. -/
theorem conversion_bijective :
    (∀ date : YearMonthDay, date.Valid → -4712 ≤ date.year →
      (getJulianDayNumber date.year date.month date.day >>= getYearMonthDay) =
        if julianDay date ≤ maxJulianDay then .ok date else .error .overflow) ∧
    (∀ n, 0 ≤ n → n ≤ maxJulianDay → ∃ date, getYearMonthDay n = .ok date ∧ date.Valid ∧
      getJulianDayNumber date.year date.month date.day = .ok n) ∧
    (∀ n, 0 ≤ n → n + 1 ≤ maxJulianDay → ∃ date, getYearMonthDay n = .ok date ∧
      getYearMonthDay (n + 1) = .ok date.next) := by
  refine ⟨fun _ => getYearMonthDay_getJulianDayNumber,
    fun _ => getJulianDayNumber_getYearMonthDay, ?_⟩
  intro n hlow hhigh
  have hnow := getYearMonthDay_eq hlow (Int.le_trans (Int.le_add_one (Int.le_refl n)) hhigh)
  refine ⟨_, hnow, ?_⟩
  rw [getYearMonthDay_next hlow hhigh, hnow]
  rfl

/-- A leap day, and the last day that has a number. -/
theorem conversion_bijective_sample :
    (getJulianDayNumber 2000 2 29 >>= getYearMonthDay) = .ok ⟨2000, 2, 29⟩ ∧
    (∃ date, getYearMonthDay 536838867 = .ok date ∧ date.Valid ∧
      getJulianDayNumber date.year date.month date.day = .ok 536838867) ∧
    ∃ date, getYearMonthDay 0 = .ok date ∧ getYearMonthDay 1 = .ok date.next :=
  ⟨conversion_bijective.1 ⟨2000, 2, 29⟩ ⟨by decide, by decide⟩ (by decide),
    conversion_bijective.2.1 536838867 (by decide) (by decide),
    conversion_bijective.2.2 0 (by decide) (by decide)⟩

end Muduo.Base
