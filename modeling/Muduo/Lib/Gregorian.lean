import Mathlib.Tactic.Common
import Mathlib.Tactic.IntervalCases

namespace Muduo.Lib.Gregorian

def IsLeap (year : Int) : Prop := year % 4 = 0 ∧ (year % 100 ≠ 0 ∨ year % 400 = 0)
  deriving Decidable

def monthLength (year month : Int) : Int :=
  if month = 2 then (if IsLeap year then 29 else 28)
  else if month = 4 ∨ month = 6 ∨ month = 9 ∨ month = 11 then 30
  else 31

structure Date where
  year : Int
  month : Int
  day : Int
  deriving DecidableEq, Repr

namespace Date

/-- A day of the Gregorian calendar, continued into the past and the future. -/
structure Valid (date : Date) : Prop where
  month : 1 ≤ date.month ∧ date.month ≤ 12
  day : 1 ≤ date.day ∧ date.day ≤ monthLength date.year date.month

theorem valid_iff {year month day : Int} : Valid ⟨year, month, day⟩ ↔
    (1 ≤ month ∧ month ≤ 12) ∧ 1 ≤ day ∧ day ≤ monthLength year month :=
  ⟨fun h => ⟨h.month, h.day⟩, fun h => ⟨h.1, h.2⟩⟩

/-- The days of the year before its month `k + 1`. -/
def daysBefore (year : Int) : Nat → Int
  | 0 => 0
  | k + 1 => daysBefore year k + monthLength year (k + 1)

/-- The zero-based day of the year. -/
def dayOfYear (date : Date) : Int := daysBefore date.year (date.month - 1).toNat + date.day - 1

/-- The day after. -/
def next (date : Date) : Date :=
  if date.day < monthLength date.year date.month then ⟨date.year, date.month, date.day + 1⟩
  else if date.month < 12 then ⟨date.year, date.month + 1, 1⟩
  else ⟨date.year + 1, 1, 1⟩

end Date

/-- The days before the first of March of a year, counted from that of year 0. -/
def yearDays (year : Int) : Int := 365 * year + year / 4 - year / 100 + year / 400

/-- The days from the first of March to the start of a month, which is counted from March. -/
def monthDays (month : Int) : Int := (153 * month + 2) / 5

/-- The days since the first of March of year 0. January and February belong to the year
before. -/
def dayNumber (date : Date) : Int :=
  let a := (14 - date.month) / 12
  yearDays (date.year - a) + monthDays (date.month + 12 * a - 3) + date.day - 1

def ofDayNumber (n : Int) : Date :=
  let b := (4 * n + 3) / 146097
  let c := n - 146097 * b / 4
  let d := (4 * c + 3) / 1461
  let e := c - 1461 * d / 4
  let m := (5 * e + 2) / 153
  ⟨100 * b + d + m / 10, m + 3 - 12 * (m / 10), e - monthDays m + 1⟩

variable {date : Date} {n b d e m : Int}

/-- A day number taken apart: the century `b`, the year `d` of the century, the day `e` of that
year and the month `m` in which it falls, all counted from the first of March. -/
structure Split (n b d e m : Int) : Prop where
  sum : n = 36524 * b + b / 4 + (365 * d + d / 4) + e
  year : 0 ≤ d ∧ d ≤ 99
  day : 0 ≤ e ∧ e ≤ 365
  leap : e = 365 → d % 4 = 3 ∧ (d = 99 → b % 4 = 3)
  month : 0 ≤ m ∧ m ≤ 11
  inMonth : monthDays m ≤ e ∧ e < monthDays (m + 1)

/-- The day with these parts. -/
def ofParts (b d e m : Int) : Date :=
  ⟨100 * b + d + m / 10, m + 3 - 12 * (m / 10), e - monthDays m + 1⟩

theorem yearDays_century (h : 0 ≤ d ∧ d ≤ 99) :
    yearDays (100 * b + d) = 36524 * b + b / 4 + (365 * d + d / 4) := by
  unfold yearDays
  omega

theorem quarter_century (b : Int) : 146097 * b / 4 = 36524 * b + b / 4 := by omega

theorem quarter_year (d : Int) : 1461 * d / 4 = 365 * d + d / 4 := by omega

/-- Only the last of four centuries has a day more. -/
theorem century_split (n : Int) (hb : b = (4 * n + 3) / 146097) :
    ∃ c, n - 146097 * b / 4 = c ∧ n = 36524 * b + b / 4 + c ∧ 0 ≤ c ∧ c ≤ 36524 ∧
      (c = 36524 → b % 4 = 3) := by
  have hlow : 146097 * b ≤ 4 * n + 3 := by omega
  have hhigh : 4 * n + 3 < 146097 * b + 146097 := by omega
  clear hb
  refine ⟨_, rfl, ?_⟩
  rw [quarter_century]
  omega

theorem year_split {c : Int} (h : 0 ≤ c ∧ c ≤ 36524) (hd : d = (4 * c + 3) / 1461) :
    ∃ e, c - 1461 * d / 4 = e ∧ c = 365 * d + d / 4 + e ∧ 0 ≤ d ∧ d ≤ 99 ∧ 0 ≤ e ∧ e ≤ 365 ∧
      (e = 365 → d % 4 = 3) := by
  have hlow : 1461 * d ≤ 4 * c + 3 := by omega
  have hhigh : 4 * c + 3 < 1461 * d + 1461 := by omega
  clear hd
  refine ⟨_, rfl, ?_⟩
  rw [quarter_year]
  omega

theorem month_split (h : 0 ≤ e ∧ e ≤ 365) (hm : m = (5 * e + 2) / 153) :
    (0 ≤ m ∧ m ≤ 11) ∧ monthDays m ≤ e ∧ e < monthDays (m + 1) := by
  unfold monthDays
  omega

/-- The centuries, years and months that the divisions find. -/
theorem exists_split (n : Int) :
    ∃ b d e m, Split n b d e m ∧ ofDayNumber n = ofParts b d e m := by
  obtain ⟨c, hc, hn, hpos, hle, hleap⟩ := century_split n rfl
  obtain ⟨e, he, hce, hd, hd', hpos', hle', hleap'⟩ := year_split ⟨hpos, hle⟩ rfl
  obtain ⟨hm, hin⟩ := month_split ⟨hpos', hle'⟩ rfl
  refine ⟨(4 * n + 3) / 146097, (4 * c + 3) / 1461, e, (5 * e + 2) / 153,
    ⟨?_, ⟨hd, hd'⟩, ⟨hpos', hle'⟩, fun h => ⟨hleap' h, fun h99 => hleap ?_⟩, hm, hin⟩, ?_⟩
  · rw [Int.add_assoc, ← hce]
    exact hn
  · omega
  · simp only [ofDayNumber, ofParts, hc, he]

theorem Split.century_eq (h : Split n b d e m) : (4 * n + 3) / 146097 = b := by
  have hd := h.year
  have he := h.day
  have hleap := h.leap
  rw [h.sum]
  omega

theorem Split.rest_eq (h : Split n b d e m) : n - 146097 * b / 4 = 365 * d + d / 4 + e := by
  rw [h.sum, quarter_century]
  omega

theorem Split.year_eq (h : Split n b d e m) : (4 * (365 * d + d / 4 + e) + 3) / 1461 = d := by
  have he := h.day
  have hleap := h.leap
  omega

theorem Split.day_eq (_ : Split n b d e m) : 365 * d + d / 4 + e - 1461 * d / 4 = e := by
  rw [quarter_year]
  omega

theorem Split.month_eq (h : Split n b d e m) : (5 * e + 2) / 153 = m := by
  have hin := h.inMonth
  unfold monthDays at hin
  omega

/-- The divisions find no other parts. -/
theorem Split.unique (h : Split n b d e m) : ofDayNumber n = ofParts b d e m := by
  simp only [ofDayNumber, ofParts, h.century_eq, h.rest_eq, h.year_eq, h.day_eq, h.month_eq]

theorem dayNumber_ofParts (hd : 0 ≤ d ∧ d ≤ 99) (hm : 0 ≤ m ∧ m ≤ 11) :
    dayNumber (ofParts b d e m) = 36524 * b + b / 4 + (365 * d + d / 4) + e := by
  have ha : (14 - (m + 3 - 12 * (m / 10))) / 12 = m / 10 := by omega
  have hyear : 100 * b + d + m / 10 - m / 10 = 100 * b + d := by omega
  have hmonth : m + 3 - 12 * (m / 10) + 12 * (m / 10) - 3 = m := by omega
  simp only [dayNumber, ofParts, ha, hyear, hmonth, yearDays_century hd]
  omega

theorem dayNumber_ofDayNumber (n : Int) : dayNumber (ofDayNumber n) = n := by
  obtain ⟨b, d, e, m, hsplit, heq⟩ := exists_split n
  rw [heq, dayNumber_ofParts hsplit.year hsplit.month, ← hsplit.sum]

/-- A month that is not February has the days up to the next. -/
theorem monthLength_march (year : Int) (h : 0 ≤ m ∧ m ≤ 10) :
    monthLength year (m + 3 - 12 * (m / 10)) = monthDays (m + 1) - monthDays m := by
  obtain ⟨hlow, hhigh⟩ := h
  interval_cases m <;> rfl

theorem isLeap_february (h : 0 ≤ d ∧ d ≤ 99) :
    IsLeap (100 * b + d + 1) ↔ d % 4 = 3 ∧ (d = 99 → b % 4 = 3) := by
  unfold IsLeap
  omega

theorem ofParts_valid (h : Split n b d e m) : (ofParts b d e m).Valid := by
  have hm := h.month
  have hin := h.inMonth
  have he := h.day
  refine ⟨?_, ?_⟩
  · simp only [ofParts]
    omega
  · by_cases hfeb : m = 11
    · subst hfeb
      have hleap := isLeap_february (b := b) h.year
      have hlast := h.leap
      simp only [monthDays] at hin
      change 1 ≤ e - 337 + 1 ∧ e - 337 + 1 ≤ if IsLeap (100 * b + d + 1) then 29 else 28
      rw [if_congr hleap rfl rfl]
      split
      · omega
      · omega
    · simp only [ofParts, monthLength_march _ (⟨hm.1, by omega⟩ : 0 ≤ m ∧ m ≤ 10)]
      omega

theorem ofDayNumber_valid (n : Int) : (ofDayNumber n).Valid := by
  obtain ⟨b, d, e, m, hsplit, heq⟩ := exists_split n
  rw [heq]
  exact ofParts_valid hsplit

/-- A year that begins in January and a month of it, counted from March. -/
theorem exists_march (year : Int) {month : Int} (h : 1 ≤ month ∧ month ≤ 12) :
    ∃ b d m, (0 ≤ d ∧ d ≤ 99) ∧ (0 ≤ m ∧ m ≤ 11) ∧ year = 100 * b + d + m / 10 ∧
      month = m + 3 - 12 * (m / 10) := by
  refine ⟨(year - (14 - month) / 12) / 100, (year - (14 - month) / 12) % 100,
    month + 12 * ((14 - month) / 12) - 3, ?_⟩
  omega

/-- A day of the calendar has its parts. -/
theorem Date.Valid.split (h : date.Valid) : ∃ b d e m, Split (dayNumber date) b d e m ∧
    date = ofParts b d e m := by
  obtain ⟨year, month, day⟩ := date
  obtain ⟨hmonth, hday⟩ := h
  obtain ⟨b, d, m, hd, hm, rfl, rfl⟩ := exists_march year hmonth
  have heq : (⟨100 * b + d + m / 10, m + 3 - 12 * (m / 10), day⟩ : Date) =
      ofParts b d (monthDays m + day - 1) m := by
    simp only [ofParts, Date.mk.injEq, true_and]
    omega
  refine ⟨b, d, monthDays m + day - 1, m, ?_, heq⟩
  rw [heq, dayNumber_ofParts hd hm]
  by_cases hfeb : m = 11
  · subst hfeb
    have hleap := isLeap_february (b := b) hd
    change 1 ≤ day ∧ day ≤ (if IsLeap (100 * b + d + 1) then 29 else 28) at hday
    rw [if_congr hleap rfl rfl] at hday
    refine ⟨rfl, hd, ?_, ?_, hm, ?_⟩
    all_goals
      simp only [monthDays]
      split at hday
      · omega
      · omega
  · have hlen := monthLength_march (100 * b + d + m / 10) (⟨hm.1, by omega⟩ : 0 ≤ m ∧ m ≤ 10)
    simp only [hlen] at hday
    simp only [monthDays] at hday ⊢
    exact ⟨rfl, hd, by omega, by omega, hm, by simp only [monthDays]; omega⟩

theorem ofDayNumber_dayNumber (h : date.Valid) : ofDayNumber (dayNumber date) = date := by
  obtain ⟨b, d, e, m, hsplit, heq⟩ := h.split
  rw [hsplit.unique, ← heq]

/-- The calendar repeats itself every 400 years. -/
theorem isLeap_cycle (year k : Int) : IsLeap (year + 400 * k) ↔ IsLeap year := by
  unfold IsLeap
  omega

theorem monthLength_cycle (year month k : Int) :
    monthLength (year + 400 * k) month = monthLength year month := by
  simp only [monthLength, isLeap_cycle]

theorem dayNumber_cycle (year month day k : Int) :
    dayNumber ⟨year + 400 * k, month, day⟩ = dayNumber ⟨year, month, day⟩ + 146097 * k := by
  simp only [dayNumber, yearDays]
  omega

theorem ofDayNumber_cycle (n k : Int) : ofDayNumber (n + 146097 * k) =
    ⟨(ofDayNumber n).year + 400 * k, (ofDayNumber n).month, (ofDayNumber n).day⟩ := by
  obtain ⟨hmonth, hday⟩ := ofDayNumber_valid n
  have hvalid : Date.Valid
      ⟨(ofDayNumber n).year + 400 * k, (ofDayNumber n).month, (ofDayNumber n).day⟩ := by
    rw [Date.valid_iff, monthLength_cycle]
    exact ⟨hmonth, hday⟩
  rw [← ofDayNumber_dayNumber hvalid, dayNumber_cycle, dayNumber_ofDayNumber]

/-- From one first of March to the next. -/
theorem yearDays_succ (year : Int) :
    yearDays year = yearDays (year - 1) + if IsLeap year then 366 else 365 := by
  unfold yearDays
  by_cases h : IsLeap year
  · rw [if_pos h]
    unfold IsLeap at h
    omega
  · rw [if_neg h]
    unfold IsLeap at h
    omega

theorem dayNumber_day (year month day : Int) :
    dayNumber ⟨year, month, day⟩ = dayNumber ⟨year, month, 1⟩ + (day - 1) := by
  simp only [dayNumber]
  omega

/-- The first of a month comes the length of the month before it later. -/
theorem dayNumber_month (year : Int) {month : Int} (h : 1 ≤ month ∧ month ≤ 11) :
    dayNumber ⟨year, month + 1, 1⟩ = dayNumber ⟨year, month, 1⟩ + monthLength year month := by
  obtain ⟨hlow, hhigh⟩ := h
  have hsucc := yearDays_succ year
  by_cases hleap : IsLeap year
  · rw [if_pos hleap] at hsucc
    interval_cases month <;> simp [dayNumber, monthDays, monthLength, hleap] <;> omega
  · rw [if_neg hleap] at hsucc
    interval_cases month <;> simp [dayNumber, monthDays, monthLength, hleap] <;> omega

theorem dayNumber_year (year : Int) :
    dayNumber ⟨year + 1, 1, 1⟩ = dayNumber ⟨year, 12, 1⟩ + 31 := by
  simp [dayNumber, monthDays]
  omega

theorem dayNumber_daysBefore (year : Int) {k : Nat} (h : k ≤ 11) :
    dayNumber ⟨year, k + 1, 1⟩ = dayNumber ⟨year, 1, 1⟩ + Date.daysBefore year k := by
  induction k with
  | zero => exact (Int.add_zero _).symm
  | succ k ih =>
    rw [Nat.cast_succ, dayNumber_month year (by omega), ih (by omega), Date.daysBefore,
      Int.add_assoc]

/-- The days since New Year. -/
theorem dayNumber_newYear (h : date.Valid) :
    dayNumber date - dayNumber ⟨date.year, 1, 1⟩ = date.dayOfYear := by
  obtain ⟨year, month, day⟩ := date
  obtain ⟨hmonth, -⟩ := Date.valid_iff.mp h
  have hstart := dayNumber_daysBefore year (k := (month - 1).toNat) (by omega)
  have hcast : ((month - 1).toNat : Int) + 1 = month := by omega
  rw [hcast] at hstart
  simp only [Date.dayOfYear]
  rw [dayNumber_day, hstart]
  omega

theorem monthLength_bounds (year month : Int) :
    28 ≤ monthLength year month ∧ monthLength year month ≤ 31 := by
  unfold monthLength
  split
  · split <;> omega
  · split <;> omega

theorem daysBefore_bounds (year : Int) (k : Nat) :
    28 * k ≤ Date.daysBefore year k ∧ Date.daysBefore year k ≤ 31 * k := by
  induction k with
  | zero => exact ⟨Int.le_refl 0, Int.le_refl 0⟩
  | succ k ih =>
    have hlen := monthLength_bounds year (k + 1)
    rw [Date.daysBefore]
    omega

theorem dayOfYear_bounds (h : date.Valid) : 0 ≤ date.dayOfYear ∧ date.dayOfYear < 372 := by
  obtain ⟨hmonth, hday⟩ := h
  have hbefore := daysBefore_bounds date.year (date.month - 1).toNat
  have hlen := monthLength_bounds date.year date.month
  unfold Date.dayOfYear
  omega

theorem newYear_valid (year : Int) : Date.Valid ⟨year, 1, 1⟩ := by
  have hlen := monthLength_bounds year 1
  rw [Date.valid_iff]
  omega

theorem next_valid (h : date.Valid) : date.next.Valid := by
  obtain ⟨year, month, day⟩ := date
  rw [Date.valid_iff] at h
  simp only [Date.next]
  split
  · rw [Date.valid_iff]
    omega
  · have hnext := monthLength_bounds year (month + 1)
    have hfirst := monthLength_bounds (year + 1) 1
    split
    · rw [Date.valid_iff]
      omega
    · rw [Date.valid_iff]
      omega

/-- Consecutive days have consecutive numbers. -/
theorem dayNumber_next (h : date.Valid) : dayNumber date.next = dayNumber date + 1 := by
  obtain ⟨year, month, day⟩ := date
  obtain ⟨hmonth, hday⟩ := Date.valid_iff.mp h
  simp only [Date.next]
  rw [dayNumber_day year month day]
  split
  · rw [dayNumber_day year month (day + 1)]
    omega
  · split
    · rw [dayNumber_month year (by omega)]
      omega
    · obtain rfl : month = 12 := by omega
      have hlen : monthLength year 12 = 31 := rfl
      rw [dayNumber_year]
      omega

theorem ofDayNumber_next (n : Int) : ofDayNumber (n + 1) = (ofDayNumber n).next := by
  have hvalid := ofDayNumber_valid n
  rw [← ofDayNumber_dayNumber (next_valid hvalid), dayNumber_next hvalid, dayNumber_ofDayNumber]

end Muduo.Lib.Gregorian
