import Muduo.Base.LogFile
import Muduo.Base.LoggedTime

namespace Muduo.Base
open Muduo.Lib Muduo.Net

namespace AppendFile

variable {f g : AppendFile} {limits : List Nat}

/-- What has been written is what was to be appended. -/
structure Whole (f : AppendFile) : Prop where
  contents : f.contents = f.lines.flatten
  counted : f.writtenBytes = f.contents.length
  flushed : f.flushed ≤ f.contents.length

theorem new_whole (filename : Bytes) (now : Int) : (new filename now).Whole :=
  ⟨rfl, rfl, Nat.le_refl 0⟩

theorem writeRest_eq (f : AppendFile) (data : Bytes) (h : ∀ limit ∈ limits, 0 < limit) :
    f.writeRest data limits = { f with contents := f.contents ++ data } := by
  induction limits generalizing f data with
  | nil => rw [writeRest, write, List.take_length]
  | cons limit limits ih =>
    have hpos : limit ≠ 0 := Nat.pos_iff_ne_zero.mp (h limit List.mem_cons_self)
    by_cases hdata : data = []
    · rw [writeRest, if_pos (.inl hdata), hdata, List.append_nil]
    · rw [writeRest, if_neg (not_or.mpr ⟨hdata, hpos⟩),
        ih _ _ fun l hl => h l (List.mem_cons_of_mem limit hl)]
      simp [write, List.append_assoc]

/-- Whatever the calls of `fwrite` take, if only they take something. -/
theorem append_eq (f : AppendFile) (logline : Bytes) (h : ∀ limit ∈ limits.tail, 0 < limit) :
    f.append logline limits = { f with
      contents := f.contents ++ logline
      writtenBytes := f.writtenBytes + logline.length
      lines := f.lines ++ [logline] } := by
  cases limits with
  | nil => simp [append, write]
  | cons limit limits =>
    have hrest : ∀ l ∈ limits, 0 < l := h
    simp only [append]
    rw [writeRest_eq _ _ hrest]
    simp [write, List.append_assoc]

theorem Whole.append (h : f.Whole) {logline : Bytes} (hl : ∀ limit ∈ limits.tail, 0 < limit) :
    (f.append logline limits).Whole := by
  rw [append_eq f logline hl]
  refine ⟨?_, ?_, ?_⟩
  · simp [h.contents]
  · simp [h.counted]
  · simpa using Nat.le_add_right_of_le h.flushed

theorem Whole.flush (h : f.Whole) : f.flush.Whole := ⟨h.contents, h.counted, Nat.le_refl _⟩

end AppendFile

namespace LogFile

variable {host : Host} {s t : LogFile} {f g : AppendFile} {lines : List Bytes}

/-- The files between two calls, the open one being `f`. -/
structure Stands (host : Host) (s : LogFile) (f : AppendFile) (lines : List Bytes) : Prop where
  file : s.file = some f
  opened : f.opened = s.lastRoll
  in_order : (s.closed ++ [f]).flatMap AppendFile.lines = lines
  whole : ∀ g ∈ s.closed ++ [f], g.Whole
  named : ∀ g ∈ s.closed ++ [f], g.filename = getLogFileName host s.basename g.opened
  ascending : ((s.closed ++ [f]).map AppendFile.opened).Pairwise (· < ·)
  flushed : ∀ g ∈ s.closed, g.flushed = g.contents.length
  counted : 0 ≤ s.count ∧ (s.count = 0 ∨ s.count < s.checkEveryN)
  fits : s.checkEveryN < 2 ^ 31

theorem Stands.files_eq (h : Stands host s f lines) : s.files = s.closed ++ [f] := by
  rw [files, h.file]
  rfl

/-- The open file goes on under its name. -/
theorem Stands.goOn (h : Stands host s f lines) (logline : List Bytes) (count lastFlush : Int)
    (hname : g.filename = f.filename) (hopened : g.opened = f.opened)
    (hlines : g.lines = f.lines ++ logline) (hwhole : g.Whole)
    (hcount : 0 ≤ count ∧ (count = 0 ∨ count < s.checkEveryN)) :
    Stands host { s with file := some g, count := count, lastFlush := lastFlush } g
      (lines ++ logline) where
  file := rfl
  opened := hopened.trans h.opened
  in_order := by
    rw [← h.in_order]
    simp [hlines]
  whole := by
    intro g' hg
    rcases List.mem_append.mp hg with hg | hg
    · exact h.whole g' (List.mem_append_left _ hg)
    · rw [List.mem_singleton.mp hg]
      exact hwhole
  named := by
    intro g' hg
    rcases List.mem_append.mp hg with hg | hg
    · exact h.named g' (List.mem_append_left _ hg)
    · rw [List.mem_singleton.mp hg, hname, hopened]
      exact h.named f (by simp)
  ascending := by
    have hall := h.ascending
    rw [List.map_append, List.map_singleton] at hall ⊢
    rwa [hopened]
  flushed := h.flushed
  counted := hcount
  fits := h.fits

theorem rollFile_of_lt {now : Int} (h : s.lastRoll < now) : rollFile host s now =
    { s with
      lastRoll := now
      lastFlush := now
      startOfPeriod := period now
      file := some (.new (getLogFileName host s.basename now) now)
      closed := s.closed ++ (s.file.map AppendFile.flush).toList } := if_pos h

theorem rollFile_of_not_lt {now : Int} (h : ¬s.lastRoll < now) : rollFile host s now = s :=
  if_neg h

/-- A new file, if the clock has got past the second of the last one. -/
theorem Stands.rollFile (h : Stands host s f lines) (now : Int) :
    ∃ g, Stands host (rollFile host s now) g lines := by
  by_cases hlt : s.lastRoll < now
  · refine ⟨.new (getLogFileName host s.basename now) now, ?_⟩
    rw [rollFile_of_lt hlt, h.file]
    have hflush : ∀ g ∈ s.closed ++ [f.flush], ∃ g' ∈ s.closed ++ [f],
        g.filename = g'.filename ∧ g.opened = g'.opened ∧ (g'.Whole → g.Whole) := by
      intro g hg
      rcases List.mem_append.mp hg with hg | hg
      · exact ⟨g, List.mem_append_left _ hg, rfl, rfl, id⟩
      · rw [List.mem_singleton.mp hg]
        exact ⟨f, by simp, rfl, rfl, fun hw => hw.flush⟩
    refine ⟨rfl, rfl, ?_, ?_, ?_, ?_, ?_, h.counted, h.fits⟩
    · rw [← h.in_order]
      simp [AppendFile.new, AppendFile.flush]
    · intro g hg
      rcases List.mem_append.mp hg with hg | hg
      · obtain ⟨g', hg', -, -, hwhole⟩ := hflush g hg
        exact hwhole (h.whole g' hg')
      · rw [List.mem_singleton.mp hg]
        exact AppendFile.new_whole _ _
    · intro g hg
      rcases List.mem_append.mp hg with hg | hg
      · obtain ⟨g', hg', hname, hopened, -⟩ := hflush g hg
        rw [hname, hopened]
        exact h.named g' hg'
      · rw [List.mem_singleton.mp hg]
        rfl
    · have hall := h.ascending
      have hlast : ∀ x ∈ (s.closed ++ [f]).map AppendFile.opened, x ≤ s.lastRoll := by
        rw [List.map_append, List.map_singleton] at hall ⊢
        intro x hx
        rw [← h.opened]
        rcases List.mem_append.mp hx with hx | hx
        · exact Int.le_of_lt ((List.pairwise_append.mp hall).2.2 x hx f.opened (by simp))
        · exact Int.le_of_eq (List.mem_singleton.mp hx)
      have hsame : (s.closed ++ [f.flush]).map AppendFile.opened =
          (s.closed ++ [f]).map AppendFile.opened := by
        simp [AppendFile.flush]
      change ((s.closed ++ [f.flush] ++ [_]).map AppendFile.opened).Pairwise _
      rw [List.map_append, hsame]
      refine List.pairwise_append.mpr ⟨hall, List.pairwise_singleton _ _, ?_⟩
      intro x hx y hy
      rw [List.map_singleton, List.mem_singleton] at hy
      rw [hy]
      exact Int.lt_of_le_of_lt (hlast x hx) hlt
    · intro g hg
      rcases List.mem_append.mp hg with hg | hg
      · exact h.flushed g hg
      · rw [List.mem_singleton.mp hg]
        rfl
  · rw [rollFile_of_not_lt hlt]
    exact ⟨f, h⟩

/-- What `append` comes to when `g` is the file with the line in it. -/
inductive Outcome (host : Host) (s : LogFile) (g : AppendFile) (now rollNow : Int) : LogFile → Prop
  | oversize (hsize : s.rollSize < g.writtenBytes) :
    Outcome host s g now rollNow (LogFile.rollFile host { s with file := some g } rollNow)
  | newDay (hsize : ¬s.rollSize < g.writtenBytes) (hdue : s.checkEveryN ≤ s.count + 1)
      (hday : period now ≠ s.startOfPeriod) :
    Outcome host s g now rollNow
      (LogFile.rollFile host { s with file := some g, count := 0 } rollNow)
  | flushed (hsize : ¬s.rollSize < g.writtenBytes) (hdue : s.checkEveryN ≤ s.count + 1)
      (hday : period now = s.startOfPeriod) (hlate : s.flushInterval < now - s.lastFlush) :
    Outcome host s g now rollNow { s with file := some g.flush, count := 0, lastFlush := now }
  | checked (hsize : ¬s.rollSize < g.writtenBytes) (hdue : s.checkEveryN ≤ s.count + 1)
      (hday : period now = s.startOfPeriod) (hlate : ¬s.flushInterval < now - s.lastFlush) :
    Outcome host s g now rollNow { s with file := some g, count := 0 }
  | counted (hsize : ¬s.rollSize < g.writtenBytes) (hdue : ¬s.checkEveryN ≤ s.count + 1) :
    Outcome host s g now rollNow { s with file := some g, count := s.count + 1 }

theorem Stands.append_cases (h : Stands host s f lines) (logline : Bytes) (limits : List Nat)
    (now rollNow : Int) : ∃ t, append_unlocked host s logline limits now rollNow = .ok t ∧
      Outcome host s (f.append logline limits) now rollNow t := by
  have hderef : s.deref = .ok f := by rw [deref, h.file]
  obtain ⟨hlow, hhigh⟩ := h.counted
  have hfits := h.fits
  have hcount : s.count < 2 ^ 31 - 1 := by omega
  have hadd : intAdd s.count 1 = .ok (s.count + 1) := intAdd_of_lt (by omega) (by omega)
  simp only [append_unlocked, hderef, ok_bind]
  by_cases hsize : s.rollSize < (f.append logline limits).writtenBytes
  · exact ⟨_, if_pos hsize, .oversize hsize⟩
  · simp only [if_neg hsize, hadd, ok_bind]
    by_cases hdue : s.checkEveryN ≤ s.count + 1
    · simp only [if_pos hdue]
      by_cases hday : period now = s.startOfPeriod
      · simp only [hday, ne_eq, not_true_eq_false, if_false]
        by_cases hlate : s.flushInterval < now - s.lastFlush
        · exact ⟨_, if_pos hlate, .flushed hsize hdue hday hlate⟩
        · exact ⟨_, if_neg hlate, .checked hsize hdue hday hlate⟩
      · exact ⟨_, if_pos hday, .newDay hsize hdue hday⟩
    · exact ⟨_, if_neg hdue, .counted hsize hdue⟩

/-- A file is longer than it should be only while the clock stands at the second in which it
was opened. -/
def Bounded (s : LogFile) (rollNow : Int) : Prop :=
  ∀ f, s.file = some f → s.rollSize < f.writtenBytes → rollNow ≤ s.lastRoll

theorem rollFile_bounded (s : LogFile) (now : Int) : (rollFile host s now).Bounded now := by
  intro f hf hsize
  by_cases hlt : s.lastRoll < now
  · rw [rollFile_of_lt hlt] at hf hsize
    cases hf
    simp [AppendFile.new] at hsize
  · rw [rollFile_of_not_lt hlt]
    omega

theorem Outcome.bounded {now rollNow : Int} (h : Outcome host s g now rollNow t) :
    t.Bounded rollNow := by
  cases h with
  | oversize hsize => exact rollFile_bounded _ _
  | newDay hsize hdue hday => exact rollFile_bounded _ _
  | flushed hsize hdue hday hlate =>
    intro f hf hover
    cases hf
    exact absurd hover hsize
  | checked hsize hdue hday hlate =>
    intro f hf hover
    cases hf
    exact absurd hover hsize
  | counted hsize hdue =>
    intro f hf hover
    cases hf
    exact absurd hover hsize

theorem Stands.append (h : Stands host s f lines) {logline : Bytes} {limits : List Nat}
    (hw : ∀ limit ∈ limits.tail, 0 < limit) {now rollNow : Int}
    (ho : Outcome host s (f.append logline limits) now rollNow t) :
    ∃ g, Stands host t g (lines ++ [logline]) := by
  have hwhole : (f.append logline limits).Whole := (h.whole f (by simp)).append hw
  have heq := AppendFile.append_eq f logline hw
  have hgo : ∀ {count : Int}, 0 ≤ count ∧ (count = 0 ∨ count < s.checkEveryN) →
      Stands host { s with file := some (f.append logline limits), count := count }
        (f.append logline limits) (lines ++ [logline]) := by
    intro count hcount
    exact h.goOn [logline] count s.lastFlush (by rw [heq]) (by rw [heq]) (by rw [heq]) hwhole hcount
  obtain ⟨hlow, hhigh⟩ := h.counted
  cases ho with
  | oversize hsize => exact (hgo h.counted).rollFile rollNow
  | newDay hsize hdue hday => exact (hgo ⟨Int.le_refl 0, .inl rfl⟩).rollFile rollNow
  | flushed hsize hdue hday hlate =>
    have hzero : (0 : Int) ≤ 0 ∧ ((0 : Int) = 0 ∨ 0 < s.checkEveryN) := ⟨Int.le_refl 0, .inl rfl⟩
    have hflush := (hgo hzero).goOn (g := (f.append logline limits).flush) [] 0 now rfl rfl
      (List.append_nil _).symm hwhole.flush hzero
    rw [List.append_nil] at hflush
    exact ⟨_, hflush⟩
  | checked hsize hdue hday hlate => exact ⟨_, hgo ⟨Int.le_refl 0, .inl rfl⟩⟩
  | counted hsize hdue => exact ⟨_, hgo ⟨by omega, .inr (by omega)⟩⟩

/-- What holds between two calls. -/
def Sound (host : Host) (s : LogFile) (lines : List Bytes) : Prop := ∃ f, Stands host s f lines

theorem Sound.step (h : Sound host s lines) {e : Event} (hw : s.Writes e) :
    ∃ t, (machine host).step s e = .ok t ∧ Sound host t (lines ++ appended [e]) ∧
      ∀ logline limits now rollNow, e = .append logline limits now rollNow → t.Bounded rollNow := by
  obtain ⟨f, h⟩ := h
  cases e with
  | append logline limits now rollNow =>
    obtain ⟨t, ht, ho⟩ := h.append_cases logline limits now rollNow
    refine ⟨t, ht, h.append hw ho, ?_⟩
    intro logline' limits' now' rollNow' he
    cases he
    exact ho.bounded
  | flush =>
    have hwhole : f.flush.Whole := (h.whole f (by simp)).flush
    have hgo := h.goOn (g := f.flush) [] s.count s.lastFlush rfl rfl (List.append_nil _).symm hwhole
      h.counted
    refine ⟨{ s with file := some f.flush }, ?_, ⟨_, hgo⟩, by simp⟩
    simp [machine, LogFile.step, LogFile.flush, deref, h.file]
  | rollFile now =>
    refine ⟨_, rfl, ?_, by simp⟩
    rw [show appended [Event.rollFile now] = [] from rfl, List.append_nil]
    exact h.rollFile now

/-- What the log files hold after some calls. -/
structure Kept (host : Host) (s : LogFile) (es : List Event) : Prop where
  in_order : s.files.flatMap AppendFile.lines = appended es
  whole : ∀ f ∈ s.files, f.contents = f.lines.flatten
  flushed : ∀ f ∈ s.closed, f.flushed = f.contents.length
  named : ∀ f ∈ s.files, f.filename = getLogFileName host s.basename f.opened
  distinct : (s.files.map AppendFile.filename).Nodup
  bounded : ∀ logline limits now rollNow,
    es.getLast? = some (.append logline limits now rollNow) → s.Bounded rollNow

/-- The calendar tells different seconds apart. -/
structure Telling (cal : Calendar) : Prop where
  proper : ∀ t, Proper (cal.gmtime_r t)
  distinct : ∀ t t', SameTime (cal.gmtime_r t) (cal.gmtime_r t') → t = t'

theorem timebuf_inj {tm tm' : BrokenDown} (hp : Proper tm) (hp' : Proper tm')
    (h : timebuf tm = timebuf tm') : SameTime tm tm' := by
  obtain ⟨hmon, hmday, hhour, hmin, hsec⟩ := hp
  obtain ⟨hmon', hmday', hhour', hmin', hsec'⟩ := hp'
  have hlen : ∀ {a b : Int}, 0 ≤ a ∧ a < 100 → 0 ≤ b ∧ b < 100 →
      (zeroPadded 2 a).length = (zeroPadded 2 b).length :=
    fun ha hb => (length_two ha).trans (length_two hb).symm
  have lmon : (zeroPadded 2 (tm.tm_mon + 1)).length = (zeroPadded 2 (tm'.tm_mon + 1)).length :=
    hlen (by omega) (by omega)
  have lmday : (zeroPadded 2 tm.tm_mday).length = (zeroPadded 2 tm'.tm_mday).length :=
    hlen (by omega) (by omega)
  have lhour : (zeroPadded 2 tm.tm_hour).length = (zeroPadded 2 tm'.tm_hour).length :=
    hlen (by omega) (by omega)
  have lmin : (zeroPadded 2 tm.tm_min).length = (zeroPadded 2 tm'.tm_min).length :=
    hlen (by omega) (by omega)
  have lsec : (zeroPadded 2 tm.tm_sec).length = (zeroPadded 2 tm'.tm_sec).length :=
    hlen (by omega) (by omega)
  -- the year is what is left of the fields of two digits
  obtain ⟨eyear, h⟩ := List.append_inj' (List.append_cancel_left h) (by
    simp only [List.length_append, lmon, lmday, lhour, lmin, lsec])
  obtain ⟨emon, h⟩ := List.append_inj h lmon
  obtain ⟨emday, h⟩ := List.append_inj h lmday
  obtain ⟨ehour, h⟩ := List.append_inj (List.append_cancel_left h) lhour
  obtain ⟨emin, h⟩ := List.append_inj h lmin
  have esec := (List.append_inj h lsec).1
  have hyear := padded_inj (show padded 0 _ = padded 0 _ by simpa [padded] using eyear)
  have hmonth := two_inj (by omega) (by omega) emon
  exact ⟨by omega, by omega, two_inj (by omega) (by omega) emday,
    two_inj (by omega) (by omega) ehour, two_inj (by omega) (by omega) emin,
    two_inj (by omega) (by omega) esec⟩

/-- Two names of log files differ where the times do. -/
theorem getLogFileName_inj (hcal : Telling host.calendar) {basename : Bytes} {now now' : Int}
    (h : getLogFileName host basename now = getLogFileName host basename now') : now = now' := by
  have htime := List.append_cancel_right (List.append_cancel_left h)
  exact hcal.distinct _ _ (timebuf_inj (hcal.proper _) (hcal.proper _) htime)

theorem Stands.distinct (h : Stands host s f lines) (hcal : Telling host.calendar) :
    (s.files.map AppendFile.filename).Nodup := by
  have hnames : s.files.map AppendFile.filename =
      (s.files.map AppendFile.opened).map (getLogFileName host s.basename) := by
    rw [List.map_map]
    apply List.map_congr_left
    rw [h.files_eq]
    exact h.named
  have hopened : (s.files.map AppendFile.opened).Nodup := by
    rw [h.files_eq]
    exact h.ascending.imp Int.ne_of_lt
  rw [hnames]
  exact hopened.map fun _ _ => getLogFileName_inj hcal

/-- The arguments of a constructor call that opens a file. -/
structure Opens (host : Host) (basename : Bytes) (rollSize : Nat)
    (flushInterval checkEveryN now : Int) (s : LogFile) : Prop where
  new : new host basename rollSize flushInterval checkEveryN now = .ok s
  clock : 0 < now
  fits : checkEveryN < 2 ^ 31

variable {basename : Bytes} {rollSize : Nat} {flushInterval checkEveryN now : Int}
  {es : List Event}

theorem Opens.sound (h : Opens host basename rollSize flushInterval checkEveryN now s) :
    Sound host s [] := by
  obtain ⟨-, -, hs⟩ := bind_ok h.new
  have hlt : (0 : Int) < now := h.clock
  rw [rollFile_of_lt hlt] at hs
  cases hs
  refine ⟨.new (getLogFileName host basename now) now, rfl, rfl, rfl, ?_, ?_, ?_, ?_, ?_, h.fits⟩
  · intro g hg
    rw [List.mem_singleton.mp hg]
    exact AppendFile.new_whole _ _
  · intro g hg
    rw [List.mem_singleton.mp hg]
    rfl
  · exact List.pairwise_singleton _ _
  · simp
  · exact ⟨Int.le_refl 0, .inl rfl⟩

theorem run_bounded (h : Opens host basename rollSize flushInterval checkEveryN now s)
    (hl : (machine host).Legal Writes s es) :
    Yields (fun t => Sound host t (appended es) ∧ ∀ logline limits now rollNow,
      es.getLast? = some (.append logline limits now rollNow) → t.Bounded rollNow)
      (fun _ => False) ((machine host).run s es) := by
  have hstart : Sound host s (appended []) ∧ ∀ logline limits now rollNow,
      ([] : List Event).getLast? = some (.append logline limits now rollNow) →
        s.Bounded rollNow := ⟨h.sound, by simp⟩
  refine Machine.run_history (R := fun s past => Sound host s (appended past) ∧
    ∀ logline limits now rollNow,
      past.getLast? = some (.append logline limits now rollNow) → s.Bounded rollNow) ?_ hstart hl
  intro u past e hu _ hw
  obtain ⟨t, ht, hsound, hbounded⟩ := hu.1.step hw
  rw [ht]
  refine ⟨by simpa [appended] using hsound, ?_⟩
  intro logline limits now rollNow he
  rw [List.getLast?_concat] at he
  exact hbounded logline limits now rollNow (Option.some.inj he)

theorem run_sound (h : Opens host basename rollSize flushInterval checkEveryN now s)
    (hl : (machine host).Legal Writes s es) :
    Yields (Sound host · (appended es)) (fun _ => False) ((machine host).run s es) :=
  (run_bounded h hl).mono fun _ ht => ht.1

/-- Every line goes whole into one file, in order, and every file has a name of its own. -/
theorem lines_kept (hcal : Telling host.calendar)
    (h : Opens host basename rollSize flushInterval checkEveryN now s)
    (hl : (machine host).Legal Writes s es) :
    Yields (Kept host · es) (fun _ => False) ((machine host).run s es) := by
  apply (run_bounded h hl).mono
  intro t ht
  obtain ⟨⟨f, hf⟩, hbounded⟩ := ht
  refine ⟨by rw [hf.files_eq]; exact hf.in_order, ?_, hf.flushed, ?_, hf.distinct hcal, hbounded⟩
  · rw [hf.files_eq]
    exact fun g hg => (hf.whole g hg).contents
  · rw [hf.files_eq]
    exact hf.named

open TimeZone (commonYears commonYears_inverse) in
theorem commonYears_telling : Telling commonYears where
  proper t := by
    have hday : ∀ n < 365, (TimeZone.monthOf n : Int) ≤ 11 ∧
        1 ≤ (n : Int) - TimeZone.daysBefore.getD (TimeZone.monthOf n) 0 + 1 ∧
        (n : Int) - TimeZone.daysBefore.getD (TimeZone.monthOf n) 0 + 1 ≤ 31 := by
      decide +kernel
    obtain ⟨hmon, hlow, hhigh⟩ := hday (t / 86400 % 365).toNat (by omega)
    refine ⟨⟨Int.natCast_nonneg _, hmon⟩, ⟨hlow, hhigh⟩, ?_, ?_, ?_⟩
    · simp only [commonYears]
      omega
    · simp only [commonYears]
      omega
    · simp only [commonYears]
      omega
  distinct t t' h := by
    have hsame : ∀ {tm tm' : BrokenDown}, SameTime tm tm' →
        commonYears.timegm tm = commonYears.timegm tm' := by
      intro tm tm' h
      simp only [commonYears, h.year, h.mon, h.mday, h.hour, h.min, h.sec]
    rw [← commonYears_inverse t, ← commonYears_inverse t']
    exact hsame h

def sampleHost : Host := ⟨TimeZone.commonYears, ascii "tux", 42⟩

/-- Files of ten bytes, looked at with every second line. -/
def sampleLog : LogFile := rollFile sampleHost ⟨ascii "log", 10, 3, 2, 0, 0, 0, 0, none, []⟩ 86000

theorem sampleLog_opens : Opens sampleHost (ascii "log") 10 3 2 86000 sampleLog :=
  ⟨rfl, by decide, by decide⟩

/-- The file gets too long within its first second, and is closed in the next one. -/
theorem lines_kept_sample :
    Yields (Kept sampleHost · [.append (ascii "hello world") [3, 4] 86000 86000,
        .append (ascii "again") [0] 86001 86001]) (fun _ => False)
      ((machine sampleHost).run sampleLog [.append (ascii "hello world") [3, 4] 86000 86000,
        .append (ascii "again") [0] 86001 86001]) :=
  lines_kept commonYears_telling sampleLog_opens (by decide)

/-- What had been written to the open file has been passed on. -/
def Handed (s t : LogFile) : Prop :=
  ∀ f, s.file = some f → ∃ g ∈ t.files,
    g.filename = f.filename ∧ f.contents <+: g.contents ∧ f.contents.length ≤ g.flushed

/-- A line comes when the file is due for a look at it: in another second than that in which it
was opened, and on another day or long after the last flush. -/
def Due (s : LogFile) : Event → Prop
  | .append _ limits now rollNow =>
    (∀ limit ∈ limits.tail, 0 < limit) ∧ s.lastRoll < rollNow ∧
      (period now ≠ s.startOfPeriod ∨ s.flushInterval < now - s.lastFlush)
  | _ => False

/-- A line comes on another day. -/
def NextDay (s : LogFile) : Event → Prop
  | .append _ _ now _ => period now ≠ s.startOfPeriod
  | _ => False

/-- `k` lines later nothing has been done yet, but count them. -/
structure Pending (s : LogFile) (k : Nat) (u : LogFile) : Prop where
  count : u.count = s.count + k
  checkEveryN : u.checkEveryN = s.checkEveryN
  flushInterval : u.flushInterval = s.flushInterval
  startOfPeriod : u.startOfPeriod = s.startOfPeriod
  lastRoll : u.lastRoll = s.lastRoll
  lastFlush : u.lastFlush = s.lastFlush
  closed : u.closed = s.closed
  grown : ∀ f, s.file = some f → ∃ g, u.file = some g ∧ g.filename = f.filename ∧
    f.contents <+: g.contents
  early : s.count + k < s.checkEveryN ∨ k = 0

theorem Pending.refl (s : LogFile) : Pending s 0 s where
  count := (Int.add_zero _).symm
  checkEveryN := rfl
  flushInterval := rfl
  startOfPeriod := rfl
  lastRoll := rfl
  lastFlush := rfl
  closed := rfl
  grown f hf := ⟨f, hf, rfl, List.prefix_refl _⟩
  early := .inr rfl

/-- No file loses anything, or its name. -/
structure Grows (s t : LogFile) : Prop where
  files : ∀ f ∈ s.files, ∃ g ∈ t.files,
    g.filename = f.filename ∧ f.contents <+: g.contents ∧ f.flushed ≤ g.flushed
  closed : s.closed.length ≤ t.closed.length

theorem Grows.trans {u : LogFile} (h : Grows s t) (h' : Grows t u) : Grows s u where
  files f hf := by
    obtain ⟨g, hg, hname, hcontents, hflushed⟩ := h.files f hf
    obtain ⟨k, hk, hname', hcontents', hflushed'⟩ := h'.files g hg
    exact ⟨k, hk, hname'.trans hname, hcontents.trans hcontents', Nat.le_trans hflushed hflushed'⟩
  closed := Nat.le_trans h.closed h'.closed

theorem Handed.grows {u : LogFile} (h : Handed s t) (hg : Grows t u) : Handed s u := by
  intro f hf
  obtain ⟨g, hgt, hname, hcontents, hflushed⟩ := h f hf
  obtain ⟨k, hk, hname', hcontents', hflushed'⟩ := hg.files g hgt
  exact ⟨k, hk, hname'.trans hname, hcontents.trans hcontents', Nat.le_trans hflushed hflushed'⟩

theorem grows_file (hf : s.file = some f) (hname : g.filename = f.filename)
    (hcontents : f.contents <+: g.contents) (hflushed : f.flushed ≤ g.flushed)
    (hc : t.closed = s.closed) (ht : t.file = some g) : Grows s t where
  files k hk := by
    rw [files, hf] at hk
    rw [files, ht, hc]
    rcases List.mem_append.mp hk with hk | hk
    · exact ⟨k, List.mem_append_left _ hk, rfl, List.prefix_refl _, Nat.le_refl _⟩
    · rw [List.mem_singleton.mp hk]
      exact ⟨g, by simp, hname, hcontents, hflushed⟩
  closed := by rw [hc]

theorem rollFile_grows (hf : s.file = some f) (hle : f.flushed ≤ f.contents.length) (now : Int) :
    Grows s (rollFile host s now) := by
  by_cases hlt : s.lastRoll < now
  · rw [rollFile_of_lt hlt]
    refine ⟨fun k hk => ?_, by simp⟩
    rw [files, hf] at hk
    rcases List.mem_append.mp hk with hk | hk
    · exact ⟨k, by simp [files, hk], rfl, List.prefix_refl _, Nat.le_refl _⟩
    · rw [List.mem_singleton.mp hk]
      exact ⟨f.flush, by simp [files, hf], rfl, List.prefix_refl _, hle⟩
  · rw [rollFile_of_not_lt hlt]
    exact ⟨fun k hk => ⟨k, hk, rfl, List.prefix_refl _, Nat.le_refl _⟩, Nat.le_refl _⟩

/-- The file as it is when a line has been appended to it. -/
theorem Stands.grows_append (h : Stands host s f lines) {logline : Bytes} {limits : List Nat}
    (hw : ∀ limit ∈ limits.tail, 0 < limit) {count lastFlush : Int} :
    Grows s { s with
      file := some (f.append logline limits), count := count, lastFlush := lastFlush } := by
  have heq := AppendFile.append_eq f logline hw
  refine grows_file h.file ?_ ?_ ?_ rfl rfl
  · rw [heq]
  · rw [heq]
    exact List.prefix_append _ _
  · rw [heq]

theorem Stands.grows (h : Stands host s f lines) {logline : Bytes} {limits : List Nat}
    (hw : ∀ limit ∈ limits.tail, 0 < limit) {now rollNow : Int}
    (ho : Outcome host s (f.append logline limits) now rollNow t) : Grows s t := by
  have hwhole : (f.append logline limits).Whole := (h.whole f (by simp)).append hw
  have happend : ∀ {count lastFlush : Int}, Grows s { s with
      file := some (f.append logline limits), count := count, lastFlush := lastFlush } :=
    h.grows_append hw
  cases ho with
  | oversize hsize => exact happend.trans (rollFile_grows rfl hwhole.flushed rollNow)
  | newDay hsize hdue hday => exact happend.trans (rollFile_grows rfl hwhole.flushed rollNow)
  | flushed hsize hdue hday hlate =>
    have hflush : Grows { s with file := some (f.append logline limits), count := 0, lastFlush := now }
        { s with file := some (f.append logline limits).flush, count := 0, lastFlush := now } :=
      grows_file (g := (f.append logline limits).flush) rfl rfl (List.prefix_refl _) hwhole.flushed
        rfl rfl
    exact happend.trans hflush
  | checked hsize hdue hday hlate => exact happend
  | counted hsize hdue => exact happend

/-- A line that is due is either counted, or has the file rolled or flushed. -/
theorem Pending.step {u : LogFile} {k : Nat} (h : Pending s k u) {file : AppendFile}
    (hfile : s.file = some file) (hu : Stands host u f lines) {logline : Bytes}
    {limits : List Nat} {now rollNow : Int} (hdue : s.Due (.append logline limits now rollNow))
    (ho : Outcome host u (f.append logline limits) now rollNow t) :
    Pending s (k + 1) t ∨ Handed s t ∧
      (s.NextDay (.append logline limits now rollNow) → s.closed.length < t.closed.length) := by
  obtain ⟨hw, hclock, hlook⟩ := hdue
  obtain ⟨f', hf', hname, hprefix⟩ := h.grown file hfile
  cases hf'.symm.trans hu.file
  have heq := AppendFile.append_eq f logline hw
  have hlonger : file.contents <+: (f.append logline limits).contents := by
    rw [heq]
    exact hprefix.trans (List.prefix_append _ _)
  have hnamed : (f.append logline limits).filename = file.filename := by
    rw [heq]
    exact hname
  have hpassed : ∀ {v : LogFile}, (f.append logline limits).flush ∈ v.files → Handed s v := by
    intro v hv f₀ hf₀
    cases hfile.symm.trans hf₀
    exact ⟨_, hv, hnamed, hlonger, hlonger.length_le⟩
  have hroll : ∀ {count : Int}, Handed s (LogFile.rollFile host
      { u with file := some (f.append logline limits), count := count } rollNow) ∧
      s.closed.length < (LogFile.rollFile host
        { u with file := some (f.append logline limits), count := count } rollNow).closed.length := by
    intro count
    rw [rollFile_of_lt (h.lastRoll ▸ hclock)]
    refine ⟨hpassed (by simp [files]), ?_⟩
    simp [h.closed]
  cases ho with
  | oversize hsize => exact .inr ⟨hroll.1, fun _ => hroll.2⟩
  | newDay hsize hcount hday => exact .inr ⟨hroll.1, fun _ => hroll.2⟩
  | flushed hsize hcount hday hlate =>
    rw [h.startOfPeriod] at hday
    exact .inr ⟨hpassed (by simp [files]), fun hne => absurd hday hne⟩
  | checked hsize hcount hday hlate =>
    rw [h.startOfPeriod] at hday
    rw [h.flushInterval, h.lastFlush] at hlate
    rcases hlook with hne | hlong
    · exact absurd hday hne
    · exact absurd hlong hlate
  | counted hsize hcount =>
    rw [h.count, h.checkEveryN] at hcount
    refine .inl ⟨?_, h.checkEveryN, h.flushInterval, h.startOfPeriod, h.lastRoll, h.lastFlush,
      h.closed, ?_, .inl ?_⟩
    · rw [h.count]
      push_cast
      omega
    · intro f₀ hf₀
      cases hfile.symm.trans hf₀
      exact ⟨_, rfl, hnamed, hlonger⟩
    · push_cast
      omega

/-- Where the file stands after some lines that were due. -/
structure Progress (host : Host) (s : LogFile) (u : LogFile) (fs : List Event) : Prop where
  sound : ∃ lines, Sound host u lines
  done : Pending s fs.length u ∨
    Handed s u ∧ ((∀ e ∈ fs, s.NextDay e) → s.closed.length < u.closed.length)

theorem Progress.step {u : LogFile} {fs : List Event} (h : Progress host s u fs)
    (hfile : s.file = some f) {e : Event} (hdue : s.Due e) :
    Yields (Progress host s · (fs ++ [e])) (fun _ => False) ((machine host).step u e) := by
  obtain ⟨⟨lines, k, hu⟩, hdone⟩ := h
  cases e with
  | flush => cases hdue
  | rollFile now => cases hdue
  | append logline limits now rollNow =>
    obtain ⟨v, hv, ho⟩ := hu.append_cases logline limits now rollNow
    have hstep : (machine host).step u (.append logline limits now rollNow) = .ok v := hv
    rw [hstep]
    refine ⟨⟨_, hu.append hdue.1 ho⟩, ?_⟩
    have hday : (∀ e ∈ fs ++ [.append logline limits now rollNow], s.NextDay e) →
        (∀ e ∈ fs, s.NextDay e) ∧ s.NextDay (.append logline limits now rollNow) := by
      intro hall
      exact ⟨fun e he => hall e (List.mem_append_left _ he), hall _ (by simp)⟩
    rcases hdone with hpending | ⟨hhanded, hrolled⟩
    · rcases hpending.step hfile hu hdue ho with hnext | ⟨hhanded, hrolled⟩
      · left
        rwa [List.length_append, List.length_singleton]
      · exact .inr ⟨hhanded, fun hall => hrolled (hday hall).2⟩
    · have hgrows := hu.grows hdue.1 ho
      refine .inr ⟨hhanded.grows hgrows, fun hall => ?_⟩
      exact Nat.lt_of_lt_of_le (hrolled (hday hall).1) hgrows.closed

/-- Once as many lines have come as are to be counted, all of them due, everything in the file
has been passed on, and if they came on another day there is a new file. -/
theorem housekeeping_in_time
    (h : Opens host basename rollSize flushInterval checkEveryN now s)
    (hs : (machine host).Reaches Writes s es t) {fs : List Event} {u : LogFile}
    (hu : (machine host).Reaches (fun _ e => t.Due e) t fs u) (hpos : fs ≠ [])
    (hlen : t.checkEveryN ≤ fs.length) :
    t.Handed u ∧ ((∀ e ∈ fs, t.NextDay e) → t.closed.length < u.closed.length) := by
  have hsound : Sound host t (appended es) := (run_sound h hs.1).of_ok hs.2
  obtain ⟨f, hf⟩ := hsound
  have hstart : Progress host t t [] := ⟨⟨_, f, hf⟩, .inl (.refl t)⟩
  have hend : Progress host t u fs :=
    (Machine.run_history (fun _ _ _ hv _ hdue => hv.step hf.file hdue) hstart hu.1).of_ok hu.2
  rcases hend.done with hpending | hdone
  · have hcount := hf.counted.1
    have hfs := List.length_pos_iff.mpr hpos
    rcases hpending.early with hlt | hzero
    · omega
    · omega
  · exact hdone

/-- Two lines on the next day. -/
def midnight : List Event := [.append (ascii "a") [] 86400 86400, .append (ascii "b") [] 86401 86401]

theorem housekeeping_in_time_sample : ∃ u, sampleLog.Handed u ∧
    ((∀ e ∈ midnight, sampleLog.NextDay e) → sampleLog.closed.length < u.closed.length) := by
  have hdue : ∀ e ∈ midnight, sampleLog.Due e := by
    intro e he
    rcases List.mem_pair.mp he with rfl | rfl
    · exact ⟨by simp, by decide, .inl (by decide)⟩
    · exact ⟨by simp, by decide, .inl (by decide)⟩
  have hl : (machine sampleHost).Legal (fun _ _ => True) sampleLog midnight :=
    ⟨trivial, trivial, fun _ _ => ⟨trivial, trivial, fun _ _ => trivial⟩⟩
  obtain ⟨u, hu⟩ : ∃ u, (machine sampleHost).run sampleLog midnight = .ok u := ⟨_, rfl⟩
  exact ⟨u, housekeeping_in_time sampleLog_opens (.refl _) ⟨hl.all hdue, hu⟩ (by simp [midnight])
    (by decide)⟩

end LogFile

end Muduo.Base
