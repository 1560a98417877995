import Muduo.Base.LocalTime
import Muduo.Base.Logging

namespace Muduo.Base
open Muduo.Lib Muduo.Net LogStream

variable {i a b : Int} {n : Nat} {str text rest : Bytes} {tm tm' : BrokenDown}

theorem decimal_signs {c : UInt8} (h : c ∈ decimal i) : c = minus ∨ 48 ≤ c := by
  rw [decimal_eq] at h
  rcases List.mem_append.mp h with hsign | hdigit
  · split at hsign
    · exact Or.inl (List.mem_singleton.mp hsign)
    · exact absurd hsign List.not_mem_nil
  · obtain ⟨d, hd, rfl⟩ := mem_numeral (by decide) hdigit
    right
    interval_cases d <;> decide

theorem mem_padded {c : UInt8} {width : Nat} (h : c ∈ padded width i) : c ≠ 0 := by
  intro hzero
  subst hzero
  rcases List.mem_append.mp h with hblank | hdecimal
  · exact absurd (List.eq_of_mem_replicate hblank) (by decide)
  · rcases decimal_signs hdecimal with hminus | hdigit
    · exact absurd hminus (by decide)
    · exact absurd hdigit (by decide)

theorem mem_zeroPadded {c : UInt8} {width : Nat} (h : c ∈ zeroPadded width i) : c ≠ 0 := by
  intro hzero
  subst hzero
  rw [zeroPadded, List.append_assoc] at h
  rcases List.mem_append.mp h with hsign | hrest
  · split at hsign
    · exact absurd (List.mem_singleton.mp hsign) (by decide)
    · exact absurd hsign List.not_mem_nil
  · rcases List.mem_append.mp hrest with hpad | hdecimal
    · exact absurd (List.eq_of_mem_replicate hpad) (by decide)
    · rcases decimal_signs hdecimal with hminus | hdigit
      · exact absurd hminus (by decide)
      · exact absurd hdigit (by decide)

/-- The date and time is a C string. -/
theorem mem_dateTime {c : UInt8} (h : c ∈ dateTime tm) : c ≠ 0 := by
  have hblank : c ∈ ascii " " → c ≠ 0 := by
    intro hc
    rw [List.mem_singleton.mp hc]
    decide
  have hcolon : c ∈ ascii ":" → c ≠ 0 := by
    intro hc
    rw [List.mem_singleton.mp hc]
    decide
  simp only [dateTime, List.mem_append] at h
  rcases h with h | h | h | h | h | h | h | h | h
  · exact mem_padded h
  · exact mem_zeroPadded h
  · exact mem_zeroPadded h
  · exact hblank h
  · exact mem_zeroPadded h
  · exact hcolon h
  · exact mem_zeroPadded h
  · exact hcolon h
  · exact mem_zeroPadded h

theorem strlen_eq (h : ∀ c ∈ text, c ≠ 0) : strlen (text ++ 0 :: rest) = text.length := by
  have htake : (text ++ 0 :: rest).takeWhile (fun c => decide (c ≠ 0)) = text := by
    rw [List.takeWhile_append_of_pos (by simpa using h)]
    simp
  rw [strlen, htake]

/-- A string with its NUL makes a `T`. -/
theorem T_eq (h : ∀ c ∈ text, c ≠ 0) (hlen : text.length = n) :
    T (text ++ 0 :: rest) n = .ok text := by
  have hload : load (text ++ 0 :: rest) 0 n = .ok text := by
    rw [load_of_le (by simp; omega), List.drop_zero, List.take_left' hlen]
  rw [T, check_pos ((strlen_eq h).trans hlen), ok_bind, hload]

/-- The fields that a log line shows. -/
structure SameTime (tm tm' : BrokenDown) : Prop where
  year : tm.tm_year = tm'.tm_year
  mon : tm.tm_mon = tm'.tm_mon
  mday : tm.tm_mday = tm'.tm_mday
  hour : tm.tm_hour = tm'.tm_hour
  min : tm.tm_min = tm'.tm_min
  sec : tm.tm_sec = tm'.tm_sec

theorem SameTime.dateTime_eq (h : SameTime tm tm') : dateTime tm = dateTime tm' := by
  rw [dateTime, dateTime, h.year, h.mon, h.mday, h.hour, h.min, h.sec]

/-- The ranges of the fields of a `struct tm`. -/
structure Proper (tm : BrokenDown) : Prop where
  mon : 0 ≤ tm.tm_mon ∧ tm.tm_mon ≤ 11
  mday : 1 ≤ tm.tm_mday ∧ tm.tm_mday ≤ 31
  hour : 0 ≤ tm.tm_hour ∧ tm.tm_hour ≤ 23
  min : 0 ≤ tm.tm_min ∧ tm.tm_min ≤ 59
  sec : 0 ≤ tm.tm_sec ∧ tm.tm_sec ≤ 60

theorem padded_inj {width : Nat} (h : padded width a = padded width b) : a = b := by
  have hstrip : ∀ i, (padded width i).dropWhile (fun c => c == 32) = decimal i := by
    intro i
    rw [padded, List.dropWhile_append_of_pos (by simp [List.mem_replicate])]
    cases htext : decimal i with
    | nil => rfl
    | cons c text =>
      have hne : c ≠ 32 := by
        rcases decimal_signs (htext ▸ List.mem_cons_self : c ∈ decimal i) with hminus | hdigit
        · rw [hminus]
          decide
        · intro heq
          rw [heq] at hdigit
          exact absurd hdigit (by decide)
      simp [hne]
  have hdecimal := congrArg (List.dropWhile fun c => c == 32) h
  rw [hstrip, hstrip] at hdecimal
  have hread := congrArg readDecimal hdecimal
  rw [readDecimal_decimal, readDecimal_decimal] at hread
  exact Option.some.inj hread

theorem two_digits : ∀ n, n < 100 → (zeroPadded 2 (n : Nat)).length = 2 ∧
    readNumeral decimalValue 10 (zeroPadded 2 (n : Nat)) = some n := by
  decide +kernel

theorem length_two (h : 0 ≤ a ∧ a < 100) : (zeroPadded 2 a).length = 2 := by
  obtain ⟨n, rfl⟩ := Int.eq_ofNat_of_zero_le h.1
  exact (two_digits n (by omega)).1

theorem two_inj (ha : 0 ≤ a ∧ a < 100) (hb : 0 ≤ b ∧ b < 100)
    (h : zeroPadded 2 a = zeroPadded 2 b) : a = b := by
  obtain ⟨m, rfl⟩ := Int.eq_ofNat_of_zero_le ha.1
  obtain ⟨n, rfl⟩ := Int.eq_ofNat_of_zero_le hb.1
  have hread := congrArg (readNumeral decimalValue 10) h
  rw [(two_digits m (by omega)).2, (two_digits n (by omega)).2] at hread
  rw [Option.some.inj hread]

/-- What is shown tells the fields. -/
theorem dateTime_inj (hp : Proper tm) (hp' : Proper tm') (h : dateTime tm = dateTime tm') :
    SameTime tm tm' := by
  have hmon := hp.mon
  have hmon' := hp'.mon
  have hmday := hp.mday
  have hmday' := hp'.mday
  have hhour := hp.hour
  have hhour' := hp'.hour
  have hmin := hp.min
  have hmin' := hp'.min
  have hsec := hp.sec
  have hsec' := hp'.sec
  have hlen : ∀ {a b : Int}, 0 ≤ a ∧ a < 100 → 0 ≤ b ∧ b < 100 →
      (zeroPadded 2 a).length = (zeroPadded 2 b).length :=
    fun ha hb => (length_two ha).trans (length_two hb).symm
  have lmon := hlen (a := tm.tm_mon + 1) (b := tm'.tm_mon + 1) (by omega) (by omega)
  have lmday := hlen (a := tm.tm_mday) (b := tm'.tm_mday) (by omega) (by omega)
  have lhour := hlen (a := tm.tm_hour) (b := tm'.tm_hour) (by omega) (by omega)
  have lmin := hlen (a := tm.tm_min) (b := tm'.tm_min) (by omega) (by omega)
  have lsec := hlen (a := tm.tm_sec) (b := tm'.tm_sec) (by omega) (by omega)
  -- the fields behind the year are two digits each, so that the texts part at the same places
  obtain ⟨eyear, h⟩ := List.append_inj' h (by
    simp only [List.length_append, lmon, lmday, lhour, lmin, lsec])
  obtain ⟨emon, h⟩ := List.append_inj h lmon
  obtain ⟨emday, h⟩ := List.append_inj h lmday
  obtain ⟨ehour, h⟩ := List.append_inj (List.append_cancel_left h) lhour
  obtain ⟨emin, h⟩ := List.append_inj (List.append_cancel_left h) lmin
  have esec := List.append_cancel_left h
  have hyear := padded_inj eyear
  have hmonth := two_inj (by omega) (by omega) emon
  exact ⟨by omega, by omega, two_inj (by omega) (by omega) emday,
    two_inj (by omega) (by omega) ehour, two_inj (by omega) (by omega) emin,
    two_inj (by omega) (by omega) esec⟩

namespace Logging

variable {cal : Calendar} {s s' : Logging} {z : TimeZone} {t seconds : Int} {out : Bytes}

/-- What `t_time` holds: nothing yet, or the last second as the time zone had it. -/
structure Sound (cal : Calendar) (s : Logging) : Prop where
  size : s.t_time.length = 32
  unfilled : s.filledIn = none → s.t_lastSecond = 0 ∧ s.t_time = List.replicate 32 0
  filled : ∀ z, s.filledIn = some z → ∃ tm rest, brokenDown cal z s.t_lastSecond = .ok tm ∧
    (dateTime tm).length = 17 ∧ s.t_time = dateTime tm ++ 0 :: rest

/-- The line shows its own time, in the time zone in force. -/
def Right (cal : Calendar) (s : Logging) : Event → Prop
  | .line t => (formatTime cal s t).map Prod.snd = afresh cal s.g_logTimeZone t
  | .setTimeZone _ => True

/-- A line in the second of `t_time`, if it was ever filled, finds a time zone in force that has
the same date and time in that second as the one in which it was filled. -/
def Fits (cal : Calendar) (s : Logging) : Event → Prop
  | .line t => secondsOf t = s.t_lastSecond → ∃ z tm tm', s.filledIn = some z ∧
      brokenDown cal z (secondsOf t) = .ok tm ∧
      brokenDown cal s.g_logTimeZone (secondsOf t) = .ok tm' ∧ SameTime tm tm'
  | .setTimeZone _ => True

/-- The time of the line can be formatted: its year has four digits in the time zone in force. -/
def Formattable (cal : Calendar) (s : Logging) : Event → Prop
  | .line t => ∃ out, afresh cal s.g_logTimeZone t = .ok out
  | .setTimeZone _ => True

instance (cal : Calendar) (s : Logging) : ∀ e, Decidable ((machine cal).enabled s e)
  | .line t => inferInstanceAs (Decidable (0 ≤ t ∧ t < year10000 * kMicroSecondsPerSecond))
  | .setTimeZone _ => isTrue trivial

instance (cal : Calendar) (s : Logging) : ∀ e, Decidable (Right cal s e)
  | .line t => inferInstanceAs
    (Decidable ((formatTime cal s t).map Prod.snd = afresh cal s.g_logTimeZone t))
  | .setTimeZone _ => isTrue trivial

instance (tm tm' : BrokenDown) : Decidable (SameTime tm tm') :=
  decidable_of_iff (tm.tm_year = tm'.tm_year ∧ tm.tm_mon = tm'.tm_mon ∧ tm.tm_mday = tm'.tm_mday ∧
      tm.tm_hour = tm'.tm_hour ∧ tm.tm_min = tm'.tm_min ∧ tm.tm_sec = tm'.tm_sec) (by
    constructor
    · intro h
      exact ⟨h.1, h.2.1, h.2.2.1, h.2.2.2.1, h.2.2.2.2.1, h.2.2.2.2.2⟩
    · intro h
      exact ⟨h.year, h.mon, h.mday, h.hour, h.min, h.sec⟩)

instance (cal : Calendar) (s : Logging) : ∀ e, Decidable (Fits cal s e)
  | .line t => decidable_of_iff (secondsOf t = s.t_lastSecond →
      ∃ z ∈ s.filledIn, ∃ tm, brokenDown cal z (secondsOf t) = .ok tm ∧
        ∃ tm', brokenDown cal s.g_logTimeZone (secondsOf t) = .ok tm' ∧ SameTime tm tm') (by
    simp only [Fits, Option.mem_def, exists_and_left])
  | .setTimeZone _ => isTrue trivial

theorem new_sound : Sound cal new where
  size := List.length_replicate
  unfilled _ := ⟨rfl, rfl⟩
  filled _ h := nomatch h

/-- The slow path, for a time that can be shown. -/
theorem fill_eq (h : Sound cal s) (htm : brokenDown cal s.g_logTimeZone seconds = .ok tm)
    (hlen : (dateTime tm).length = 17) :
    ∃ s' rest, fill cal s seconds = .ok s' ∧ Sound cal s' ∧ s'.g_logTimeZone = s.g_logTimeZone ∧
      s'.t_time = dateTime tm ++ 0 :: rest := by
  have hsize := h.size
  have hall : snprintf 32 (dateTime tm) = dateTime tm := List.take_of_length_le (by omega)
  have hfit : 0 + (dateTime tm ++ [0]).length ≤ s.t_time.length := by
    rw [List.length_append, List.length_singleton]
    omega
  have htext : splice s.t_time 0 (dateTime tm ++ [0]) =
      dateTime tm ++ 0 :: s.t_time.drop (0 + (dateTime tm ++ [0]).length) := by
    simp [splice]
  have hkept : (splice s.t_time 0 (dateTime tm ++ [0])).length = 32 :=
    (Buffer.splice_length hfit).trans hsize
  refine ⟨{ s with
    t_time := splice s.t_time 0 (dateTime tm ++ [0]), t_lastSecond := seconds,
    filledIn := some s.g_logTimeZone }, _, ?_, ⟨hkept, by simp, ?_⟩, rfl, htext⟩
  · rw [fill, htm, ok_bind, hall, store_of_le hfit, ok_bind, check_pos hlen, ok_bind]
    rfl
  · intro z hz
    cases hz
    exact ⟨tm, _, htm, hlen, htext⟩

theorem fill_error (h : Sound cal s) {f : Fault}
    (hf : (brokenDown cal s.g_logTimeZone seconds >>= fun tm =>
      check ((dateTime tm).length = 17)) = .error f) : fill cal s seconds = .error f := by
  have hsize := h.size
  rw [fill]
  cases htm : brokenDown cal s.g_logTimeZone seconds with
  | error f' =>
    rw [htm] at hf
    cases hf
    rfl
  | ok tm =>
    rw [htm, ok_bind] at hf
    have hshort : (snprintf 32 (dateTime tm) ++ [0]).length ≤ 32 := by
      rw [List.length_append, snprintf, List.length_take, List.length_singleton]
      omega
    rw [ok_bind, store_of_le (by omega), ok_bind, hf, error_bind]

/-- Formatting is filling the buffer and copying it out. -/
theorem formatTime_of_fill (hmiss : secondsOf t ≠ s.t_lastSecond)
    (h : Sound cal s) : (formatTime cal s t).map Prod.snd = afresh cal s.g_logTimeZone t ∧
      ∀ s' out, formatTime cal s t = .ok (s', out) → Sound cal s' := by
  rw [formatTime, afresh, if_pos hmiss]
  cases htm : brokenDown cal s.g_logTimeZone (secondsOf t) with
  | error f =>
    rw [fill_error h (by rw [htm]; rfl), error_bind, error_bind]
    exact ⟨rfl, nofun⟩
  | ok tm =>
    rw [ok_bind]
    by_cases hlen : (dateTime tm).length = 17
    · obtain ⟨s', rest, hfill, hsound, hzone, htext⟩ := fill_eq h htm hlen
      rw [hfill, ok_bind, check_pos hlen, ok_bind]
      simp only [hzone, htext]
      cases fraction s.g_logTimeZone.data_.isSome (microsecondsOf t) with
      | error f => exact ⟨rfl, nofun⟩
      | ok us =>
        rw [ok_bind, ok_bind, T_eq (fun _ => mem_dateTime) hlen, ok_bind]
        refine ⟨rfl, ?_⟩
        intro s'' out hout
        cases hout
        exact hsound
    · have hcheck : check ((dateTime tm).length = 17) = .error .assertion := check_neg hlen
      rw [fill_error h (by rw [htm, ok_bind, hcheck]), hcheck, error_bind, error_bind]
      exact ⟨rfl, nofun⟩

/-- Otherwise it is copying alone. -/
theorem formatTime_of_hit (hhit : secondsOf t = s.t_lastSecond) : formatTime cal s t =
    (fraction s.g_logTimeZone.data_.isSome (microsecondsOf t) >>= fun us =>
      T s.t_time 17 >>= fun time => .ok (s, time ++ us)) := by
  rw [formatTime, if_neg (not_not.mpr hhit)]
  rfl

theorem Sound.line (h : Sound cal s) (hline : formatTime cal s t = .ok (s', out)) :
    Sound cal s' := by
  by_cases hhit : secondsOf t = s.t_lastSecond
  · rw [formatTime_of_hit hhit] at hline
    obtain ⟨us, -, hline⟩ := bind_ok hline
    obtain ⟨time, -, hline⟩ := bind_ok hline
    cases hline
    exact h
  · exact (formatTime_of_fill hhit h).2 s' out hline

theorem Sound.step (h : Sound cal s) {e : Event} (hstep : (machine cal).step s e = .ok s') :
    Sound cal s' := by
  cases e with
  | line t =>
    obtain ⟨⟨s'', out⟩, hline, hend⟩ := bind_ok hstep
    cases hend
    exact h.line hline
  | setTimeZone tz =>
    cases hstep
    exact ⟨h.size, h.unfilled, h.filled⟩

/-- A line that fits is right. -/
theorem Sound.right (h : Sound cal s) {e : Event} (hfits : Fits cal s e) : Right cal s e := by
  cases e with
  | setTimeZone tz => trivial
  | line t =>
    by_cases hhit : secondsOf t = s.t_lastSecond
    · obtain ⟨z, tm, tm', hz, htm, htm', hsame⟩ := hfits hhit
      obtain ⟨tm'', rest, hfilled, hlen, htext⟩ := h.filled z hz
      rw [← hhit] at hfilled
      cases htm.symm.trans hfilled
      have hshown := hsame.dateTime_eq
      change (formatTime cal s t).map Prod.snd = afresh cal s.g_logTimeZone t
      rw [formatTime_of_hit hhit, afresh, htm', ok_bind, ← hshown, check_pos hlen, ok_bind, htext,
        T_eq (fun _ => mem_dateTime) hlen]
      cases fraction s.g_logTimeZone.data_.isSome (microsecondsOf t) <;> rfl
    · exact (formatTime_of_fill hhit h).1

theorem brokenDown_proper (hcal : ∀ t, Proper (cal.gmtime_r t))
    (htm : brokenDown cal z seconds = .ok tm) : Proper tm := by
  unfold brokenDown at htm
  split at htm
  · obtain ⟨local', hlocal, hend⟩ := bind_ok htm
    cases hend
    obtain ⟨data, -, hlocal⟩ := bind_ok hlocal
    obtain ⟨l, -, hlocal⟩ := bind_ok hlocal
    cases hlocal
    exact hcal _
  · cases htm
    exact hcal _

/-- A line that can be formatted and does not fit is wrong. -/
theorem Sound.fits (h : Sound cal s) (hcal : ∀ t, Proper (cal.gmtime_r t)) {e : Event}
    (hformattable : Formattable cal s e) (hright : Right cal s e) : Fits cal s e := by
  cases e with
  | setTimeZone tz => trivial
  | line t =>
    intro hhit
    obtain ⟨out, hout⟩ := hformattable
    change (formatTime cal s t).map Prod.snd = afresh cal s.g_logTimeZone t at hright
    rw [hout, formatTime_of_hit hhit] at hright
    obtain ⟨tm', htm', hrest⟩ := bind_ok hout
    obtain ⟨-, -, hrest⟩ := bind_ok hrest
    obtain ⟨us, hus, hend⟩ := bind_ok hrest
    rw [hus, ok_bind] at hright
    cases hend
    cases hz : s.filledIn with
    | none =>
      have hunfilled : T s.t_time 17 = .error .assertion := by
        rw [(h.unfilled hz).2]
        rfl
      rw [hunfilled] at hright
      cases hright
    | some z =>
      obtain ⟨tm, rest, htm, hlen, htext⟩ := h.filled z hz
      rw [htext, T_eq (fun _ => mem_dateTime) hlen, ok_bind] at hright
      have hsame : dateTime tm = dateTime tm' :=
        List.append_cancel_right (Except.ok.inj hright)
      rw [← hhit] at htm
      exact ⟨z, tm, tm', rfl, htm, htm', dateTime_inj (brokenDown_proper hcal htm)
        (brokenDown_proper hcal htm') hsame⟩

/-- The lines of a run are right where they all fit, and, if they can be formatted, only
there. -/
theorem lines_right (cal : Calendar) (es : List Event) :
    ((machine cal).Legal (Fits cal) new es → (machine cal).Legal (Right cal) new es) ∧
    ((∀ t, Proper (cal.gmtime_r t)) →
      (machine cal).Legal (fun s e => Formattable cal s e ∧ Right cal s e) new es →
      (machine cal).Legal (Fits cal) new es) := by
  have hkeep : ∀ s e s', Sound cal s → (machine cal).step s e = .ok s' → Sound cal s' :=
    fun _ _ _ hs hstep => hs.step hstep
  constructor
  · intro hfits
    exact hfits.imp hkeep (fun _ _ hs _ hc => hs.right hc) new_sound
  · intro hcal hright
    exact hright.imp hkeep (fun _ _ hs _ hc => hs.fits hcal hc.1 hc.2) new_sound

/-- Two lines in one second, and two in the next, in a time zone set between them. -/
def lateShift : List Event :=
  [.line 1000000, .line 1000001, .setTimeZone (.fixed 3600 (ascii "CET")), .line 2000000,
    .line 2000007]

theorem lines_right_sample :
    (machine TimeZone.commonYears).Legal (Right TimeZone.commonYears) new lateShift :=
  (lines_right TimeZone.commonYears lateShift).1 (by decide +kernel)

/-- A change of the time zone within a second does not show. -/
theorem zone_change_hidden : ¬(machine TimeZone.commonYears).Legal (Right TimeZone.commonYears) new
    [.line 1000000, .setTimeZone (.fixed 3600 (ascii "CET")), .line 1000001] := by
  decide +kernel

end Logging

end Muduo.Base
