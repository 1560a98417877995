import Muduo.Net.TimerHistory

namespace Muduo.Net
open Muduo.Lib

/-- The timerfd wakes the loop for a timer at `w`: by `w`, or soon after it was armed. -/
def Timerfd.Covers (w : Timestamp) : Timerfd → Prop
  | .disarmed => False
  | .armed deadline since => deadline ≤ max w (since + 100)
  | .expired => True

/-- The timerfd has expired and is unread, or will expire in time for all of `timers`. -/
def Timerfd.WakesFor (timers : List Entry) : Timerfd → Prop
  | .disarmed => False
  | .armed deadline since => ∀ e ∈ timers, deadline ≤ max e.expiration (since + 100)
  | .expired => True

namespace Timestamp

theorem fits_add {now i : Int} (hnow : 0 < now) (hi : 0 ≤ i) (h : now + i < 2 ^ 63) :
    FitsInt64 (now + i) := ⟨by omega, h⟩

/-- Two times behind the epoch are not too far from each other. -/
theorem fits_sub {when now : Int} (hw : 0 < when) (hw' : when < 2 ^ 63) (hn : 0 < now)
    (hn' : now < 2 ^ 63) : FitsInt64 (when - now) := ⟨by omega, by omega⟩

end Timestamp

namespace Timerfd

variable {fd : Timerfd} {w w' now : Timestamp}

/-- The two fields of the `timespec` add up to the microseconds. -/
theorem timespec_sum (m : Int) : m.tdiv kMicroSecondsPerSecond * kMicroSecondsPerSecond +
    (m.tmod kMicroSecondsPerSecond * 1000).tdiv 1000 = m := by
  have hmul : (m.tmod kMicroSecondsPerSecond * 1000).tdiv 1000 =
      m.tmod kMicroSecondsPerSecond := Int.mul_tdiv_cancel _ (by decide)
  rw [hmul, Int.mul_comm]
  exact Int.mul_tdiv_add_tmod m _

theorem resetTimerfd_eq {w now : Int} (hfits : FitsInt64 (w - now)) :
    resetTimerfd w now = .armed (max w (now + 100)) now := by
  have hsum := timespec_sum (if w - now < 100 then 100 else w - now)
  have hmax : max w (now + 100) = now + if w - now < 100 then 100 else w - now := by
    split
    · rename_i hsoon
      exact max_eq_right (by omega)
    · rename_i hlate
      rw [max_eq_left (by omega)]
      omega
  simp only [resetTimerfd, howMuchTimeFromNow, int64_of_fits hfits, Timerfd.armed.injEq, and_true]
  rw [hmax, Int.add_assoc, hsum]

theorem covers_resetTimerfd (hfits : FitsInt64 (w - now)) : (resetTimerfd w now).Covers w := by
  rw [resetTimerfd_eq hfits]
  exact le_refl _

theorem Covers.later (h : fd.Covers w) (hle : w ≤ w') : fd.Covers w' := by
  cases fd with
  | disarmed => exact h
  | armed deadline since => exact le_trans h (max_le_max_right _ hle)
  | expired => trivial

theorem Covers.elapse (h : fd.Covers w) (now : Timestamp) : (fd.elapse now).Covers w := by
  cases fd with
  | disarmed => exact h
  | armed deadline since =>
    simp only [Timerfd.elapse]
    split
    · trivial
    · exact h
  | expired => trivial

end Timerfd

namespace TimerQueue

variable {q : TimerQueue} {loose : List Addr} {p : Addr} {t : Timer} {idle : Prop}

/-- The timerfd covers the pending timers: all of them while the queue is `idle`, and during
`handleRead` those that its final `reset` does not arm for. -/
def Watched (q : TimerQueue) (idle : Prop) : Prop :=
  ∀ e ∈ q.timers, idle ∨ e.expiration ≤ 0 → q.timerfd.Covers e.expiration

/-- `expiration_` is an `int64_t`, and `interval_` is not negative where a timer repeats. -/
def Timed (q : TimerQueue) : Prop :=
  ∀ p t, q.heap p = some t → t.expiration < 2 ^ 63 ∧ (t.repeats = true → 0 ≤ t.interval)

/-- Armed for its expiration, a timer that becomes the earliest needs no overflow. -/
def ArmFits (q : TimerQueue) (timer : Addr) : Prop :=
  ∀ t ∈ q.heap timer, q.earliestChanged t.expiration = true → FitsInt64 (t.expiration - q.clock)

/-- Nor does a timer that `reset` starts again. -/
def RestartFits (q : TimerQueue) (now : Timestamp) (timer : Addr) : Prop :=
  ∀ t ∈ q.heap timer, t.repeats = true ∧ ⟨timer, t.sequence⟩ ∉ q.cancelingTimers →
    now + t.interval < 2 ^ 63

/-- In order, the first timer is the earliest. -/
theorem head_earliest {e : Entry} {es : List Entry} (h : q.timers.elems = e :: es) :
    e ∈ q.timers ∧ ∀ e' ∈ q.timers, e.expiration ≤ e'.expiration := by
  have hsorted := q.timers.sorted
  rw [h] at hsorted
  refine ⟨by rw [OrderedSet.mem_def, h]; exact List.mem_cons_self, ?_⟩
  intro e' he'
  rw [OrderedSet.mem_def, h] at he'
  cases List.mem_cons.mp he' with
  | inl heq => exact le_of_eq (congrArg Entry.expiration heq.symm)
  | inr hin =>
    cases Entry.lt_iff.mp ((List.pairwise_cons.mp hsorted).1 e' hin) with
    | inl hlt => exact le_of_lt hlt
    | inr heq => exact le_of_eq heq.1

/-- An insertion arms for the new timer unless an earlier one is pending. -/
theorem Watched.enter (h : q.Watched idle) (p : Addr) {t : Timer}
    (hfits : q.earliestChanged t.expiration = true → FitsInt64 (t.expiration - q.clock)) :
    ({ q.enter p t with
        timerfd := if q.earliestChanged t.expiration then .resetTimerfd t.expiration q.clock
          else q.timerfd } : TimerQueue).Watched idle := by
  intro e he hwhen
  have hin : e = ⟨t.expiration, p⟩ ∨ e ∈ q.timers := OrderedSet.mem_insert.mp he
  cases hfirst : q.timers.elems with
  | nil =>
    have hnone : e ∉ q.timers := by
      rw [OrderedSet.mem_def, hfirst]
      exact List.not_mem_nil
    have hfirst' : q.earliestChanged t.expiration = true := by simp only [earliestChanged, hfirst]
    simp only [hfirst', if_true, hin.resolve_right hnone]
    exact Timerfd.covers_resetTimerfd (hfits hfirst')
  | cons e₀ es =>
    obtain ⟨hmem, hmin⟩ := head_earliest hfirst
    have hchanged : q.earliestChanged t.expiration = true ↔ t.expiration < e₀.expiration := by
      simp only [earliestChanged, hfirst, decide_eq_true_eq]
    simp only [hchanged]
    split
    · rename_i hlt
      apply (Timerfd.covers_resetTimerfd (hfits (hchanged.mpr hlt))).later
      cases hin with
      | inl heq => exact le_of_eq (congrArg Entry.expiration heq.symm)
      | inr hin => exact le_trans (le_of_lt hlt) (hmin e hin)
    · rename_i hle
      cases hin with
      | inl heq =>
        -- an earlier timer is covered, and so is this one
        subst heq
        have hle' : e₀.expiration ≤ t.expiration := not_lt.mp hle
        exact (h e₀ hmem (hwhen.imp_right fun hw => le_trans hle' hw)).later hle'
      | inr hin => exact h e hin hwhen

theorem Timed.update (hq : q.Timed) {u : Timer}
    (hu : u.expiration < 2 ^ 63 ∧ (u.repeats = true → 0 ≤ u.interval))
    {q' : TimerQueue} (hheap : q'.heap = Function.update q.heap p (some u)) : q'.Timed := by
  intro p' v hv
  rw [hheap] at hv
  by_cases h : p' = p
  · subst h
    rw [Function.update_self, Option.some.injEq] at hv
    subst hv
    exact hu
  · rw [Function.update_of_ne h] at hv
    exact hq p' v hv

theorem Timed.remove (hq : q.Timed) {q' : TimerQueue}
    (hheap : q'.heap = Function.update q.heap p none) : q'.Timed := by
  intro p' v hv
  rw [hheap] at hv
  by_cases h : p' = p
  · subst h
    rw [Function.update_self] at hv
    cases hv
  · rw [Function.update_of_ne h] at hv
    exact hq p' v hv

/-- What a turn of `reset` does to one timer is nothing to the others. -/
theorem RestartFits.update {now : Timestamp} {p' : Addr} (h : q.RestartFits now p') (hne : p' ≠ p)
    {q' : TimerQueue} {o : Option Timer} (hheap : q'.heap = Function.update q.heap p o)
    (hcancel : q'.cancelingTimers = q.cancelingTimers) : q'.RestartFits now p' := by
  intro t ht hagain
  rw [hheap, Function.update_of_ne hne] at ht
  rw [hcancel] at hagain
  exact h t ht hagain

/-- One turn of `reset` touches neither the timerfd nor the clock, and what it puts back
expires after the epoch. -/
theorem resetOne_watched {w now : Timestamp} (hnow : 0 < now) (hfits : q.RestartFits now p)
    (hb : q.Books (p :: loose)) (hq : q.Timed) (h : q.Watched False) :
    ∃ q', q.resetOne now ⟨w, p⟩ = .ok q' ∧ q'.Books loose ∧ q'.Timed ∧ q'.Watched False ∧
      q'.clock = q.clock ∧ ∀ p' ≠ p, q.RestartFits now p' → q'.RestartFits now p' := by
  obtain ⟨t, ht⟩ := hb.live p List.mem_cons_self
  cases hb.resetOne (w := w) ht now with
  | inl hagain =>
    obtain ⟨hr, hout, q₁, hq₁, hstep, hbooks⟩ := hagain
    subst hq₁
    have hinterval := (hq p t ht).2 hr
    have hsum : now + t.interval < 2 ^ 63 := hfits t ht ⟨hr, hout⟩
    have hlater : (t.restart now).expiration = now + t.interval := by
      simp only [Timer.restart, hr, if_true, Timestamp.addTime]
      exact int64_of_fits (Timestamp.fits_add hnow hinterval hsum)
    refine ⟨_, hstep, hbooks, ?_, ?_, rfl, fun p' hne hp' => hp'.update hne rfl rfl⟩
    · apply hq.update (p := p) (u := t.restart now) _ rfl
      refine ⟨by rw [hlater]; exact hsum, ?_⟩
      intro _
      simp only [Timer.restart, hr, if_true]
      exact hinterval
    · intro e he hwhen
      cases OrderedSet.mem_insert.mp he with
      | inl heq =>
        have hpos : 0 < e.expiration := by
          rw [heq]
          simp only [hlater]
          exact Int.add_pos_of_pos_of_nonneg hnow hinterval
        exact absurd (hwhen.resolve_left id) (not_le.mpr hpos)
      | inr hin => exact h e hin hwhen
  | inr hfreed =>
    obtain ⟨hstep, hbooks⟩ := hfreed
    exact ⟨_, hstep, hbooks, hq.remove rfl, h, rfl, fun p' hne hp' => hp'.update hne rfl rfl⟩

theorem reset_turns_watched {es : List Entry} {now : Timestamp} (hnow : 0 < now)
    (hfits : ∀ e ∈ es, q.RestartFits now e.timer)
    (hb : q.Books (es.map Entry.timer ++ loose)) (hq : q.Timed) (h : q.Watched False) :
    ∃ q', es.foldlM (fun q e => q.resetOne now e) q = .ok q' ∧ q'.Books loose ∧
      q'.Timed ∧ q'.Watched False ∧ q'.clock = q.clock := by
  induction es generalizing q with
  | nil => exact ⟨q, rfl, hb, hq, h, rfl⟩
  | cons e es ih =>
    rw [List.map_cons, List.cons_append] at hb
    have hnodup := (List.nodup_cons.mp hb.nodup).1
    obtain ⟨q₁, hstep, hb₁, hq₁, h₁, hclock₁, hothers⟩ :=
      resetOne_watched (w := e.expiration) hnow (hfits e List.mem_cons_self) hb hq h
    have hfits₁ : ∀ e' ∈ es, q₁.RestartFits now e'.timer := by
      intro e' he'
      apply hothers e'.timer _ (hfits e' (List.mem_cons_of_mem _ he'))
      intro heq
      exact hnodup (List.mem_append_left _ (heq ▸ List.mem_map_of_mem (f := Entry.timer) he'))
    obtain ⟨q', hfold, hb', hq', h', hclock⟩ := ih hfits₁ hb₁ hq₁ h₁
    refine ⟨q', ?_, hb', hq', h', hclock.trans hclock₁⟩
    rw [List.foldlM_cons, hstep, ok_bind]
    exact hfold

/-- The end of `handleRead` arms for the earliest timer, or that one was covered already. -/
theorem endRead_watched {es : List Entry} {now : Timestamp} (hnow : 0 < now)
    (hclock : 0 < q.clock ∧ q.clock < 2 ^ 63) (hfits : ∀ e ∈ es, q.RestartFits now e.timer)
    (hb : q.Books (es.map Entry.timer ++ loose)) (hq : q.Timed) (h : q.Watched False) :
    ∃ q', q.endRead es now = .ok q' ∧ q'.Timed ∧ q'.Watched True := by
  obtain ⟨q₁, hfold, hb₁, hq₁, h₁, hclock₁⟩ := reset_turns_watched
    (q := { q with callingExpiredTimers := false }) hnow hfits (hb.congr rfl rfl rfl rfl) hq h
  simp only [TimerQueue.endRead, TimerQueue.reset, hfold, ok_bind]
  cases hfirst : q₁.timers.elems with
  | nil =>
    refine ⟨q₁, ?_, hq₁, ?_⟩
    · simp [TimerQueue.nextExpire, hfirst, Timestamp.invalid]
    · intro e he
      rw [OrderedSet.mem_def, hfirst] at he
      exact absurd he List.not_mem_nil
  | cons e₀ es₀ =>
    obtain ⟨hmem, hmin⟩ := head_earliest hfirst
    obtain ⟨t, ht, hw, -⟩ := (hb₁.timers e₀.expiration e₀.timer).mp hmem
    simp only [TimerQueue.nextExpire, hfirst, deref_of_live ht, ok_bind, hw]
    by_cases hvalid : e₀.expiration.valid
    · refine ⟨_, if_pos hvalid, hq₁, ?_⟩
      -- both are positive `int64_t`s
      have hrange : e₀.expiration < 2 ^ 63 := hw ▸ (hq₁ e₀.timer t ht).1
      have hclock' : q.clock = q₁.clock := hclock₁.symm
      have hdiff : FitsInt64 (e₀.expiration - q₁.clock) :=
        hclock' ▸ Timestamp.fits_sub hvalid hrange hclock.1 hclock.2
      intro e he _
      exact (Timerfd.covers_resetTimerfd hdiff).later (hmin e he)
    · refine ⟨q₁, if_neg hvalid, hq₁, ?_⟩
      intro e he _
      exact (h₁ e₀ hmem (.inr (not_lt.mp hvalid))).later (hmin e he)

end TimerQueue

namespace TimerRun

variable {s s' : TimerRun} {p : Addr}

/-- The invariant of whole runs: pending timers are covered, and a `handleRead` that is
executing read the clock after the epoch. -/
structure Attended (s : TimerRun) : Prop where
  watched : s.queue.Watched (s.expiry = none)
  timed : s.queue.Timed
  after : ∀ b ∈ s.expiry, 0 < b.now

/-- `handleRead` reads a `Timestamp::now()` behind the epoch, a timer is made of values that
their types can hold, and nothing that the step computes of times overflows an `int64_t`. -/
def NoOverflow (s : TimerRun) : Event → Prop
  | .newTimer _ when interval repeats => FitsInt64 when ∧ (repeats = true → 0 ≤ interval)
  | .addTimerInLoop timer => s.queue.ArmFits timer
  | .beginRead => 0 < s.queue.clock
  | .endRead => (0 < s.queue.clock ∧ s.queue.clock < 2 ^ 63) ∧
      ∀ b ∈ s.expiry, ∀ e ∈ b.ran, s.queue.RestartFits b.now e.timer
  | _ => True

theorem initial_attended : Attended initial where
  watched := by simp [TimerQueue.Watched, initial, TimerQueue.initial]
  timed := by simp [TimerQueue.Timed, initial, TimerQueue.initial]
  after := by simp [initial]

theorem Attended.addTimerInLoop (ha : Attended s) (hs : Sound s) (hp : p ∈ s.waiting)
    (hfits : s.queue.ArmFits p) (h : s.addTimerInLoop p = .ok s') : Attended s' := by
  have hmem : p ∈ s.ranTimers ++ s.restTimers ++ s.waiting := List.mem_append_right _ hp
  obtain ⟨t, ht⟩ := hs.books.live p hmem
  have hbooks := hs.books.perm (List.perm_cons_erase hmem)
  obtain ⟨fd, hfd, hadd, -⟩ := hbooks.addTimerInLoop ht
  subst hfd
  have hderef : ∀ fd, ({ s.queue.enter p t with timerfd := fd } : TimerQueue).deref p = .ok t :=
    fun _ => TimerQueue.deref_of_live ht
  simp only [TimerRun.addTimerInLoop, hadd, ok_bind, hderef] at h
  cases h
  exact ⟨ha.watched.enter p (hfits t ht), ha.timed, ha.after⟩

theorem Attended.cancelInLoop (ha : Attended s) (hs : Sound s) {id : TimerId}
    (h : s.cancelInLoop id = .ok s') : Attended s' := by
  cases hs.books.cancelInLoop id with
  | inl hfound =>
    obtain ⟨t, -, -, -, hcancel, -⟩ := hfound
    simp only [TimerRun.cancelInLoop, hcancel, ok_bind] at h
    cases h
    refine ⟨?_, ha.timed.remove rfl, ha.after⟩
    intro e he hwhen
    exact ha.watched e (OrderedSet.mem_erase.mp he).2 hwhen
  | inr hnoted =>
    simp only [TimerRun.cancelInLoop, hnoted.2, ok_bind] at h
    cases h
    refine ⟨?_, ?_, ha.after⟩
    · split
      · exact ha.watched
      · exact ha.watched
    · split
      · exact ha.timed
      · exact ha.timed

theorem Attended.beginRead (ha : Attended s) (hs : Sound s) (hnow : 0 < s.queue.clock)
    (h : s.beginRead = .ok s') : Attended s' := by
  obtain ⟨a, hbegin, -⟩ := hs.books.beginRead
  simp only [TimerRun.beginRead, hbegin, ok_bind] at h
  cases h
  refine ⟨?_, ha.timed, ?_⟩
  · intro e he hwhen
    have hlater := ((hs.books.above_iff _).mp he).2
    have hpast : e.expiration ≤ 0 := hwhen.resolve_left (by simp)
    exact absurd (lt_trans hnow hlater) (not_lt.mpr hpast)
  · intro b hb
    cases hb
    exact hnow

theorem Attended.endRead (ha : Attended s) (hs : Sound s) {b : Expiry} (hb : s.expiry = some b)
    (hrest : b.rest = []) (hc : NoOverflow s .endRead) (h : s.endRead b = .ok s') :
    Attended s' := by
  have hbooks := hs.books
  simp only [ranTimers, restTimers, hb, hrest, List.map_nil, List.append_nil] at hbooks
  have hexp : b.expired = b.ran := by rw [Expiry.expired, hrest, List.append_nil]
  have hwatched : s.queue.Watched False := by
    intro e he hwhen
    exact ha.watched e he (.inr (hwhen.resolve_left id))
  obtain ⟨q', hend, htimed, hw⟩ :=
    TimerQueue.endRead_watched (ha.after b hb) hc.1 (hc.2 b hb) hbooks ha.timed hwatched
  simp only [TimerRun.endRead, hexp, hend, ok_bind] at h
  cases h
  refine ⟨?_, htimed, by simp⟩
  intro e he _
  exact hw e he (.inl trivial)

theorem Attended.step (ha : Attended s) (hs : Sound s) {e : Event} (he : machine.enabled s e)
    (hc : NoOverflow s e) (h : machine.step s e = .ok s') : Attended s' := by
  cases e with
  | newTimer timer when interval repeats =>
    cases h
    have hheap : (s.queue.newTimer timer when interval repeats).heap = Function.update s.queue.heap
        timer (some ⟨when, interval, repeats, s.queue.numCreated + 1⟩) := rfl
    have hnew := ha.timed.update (by exact ⟨hc.1.2, hc.2⟩) hheap
    exact ⟨ha.watched, hnew, ha.after⟩
  | addTimerInLoop timer => exact ha.addTimerInLoop hs he hc h
  | cancelInLoop timerId => exact ha.cancelInLoop hs h
  | setClock now =>
    cases h
    exact ⟨fun e he hwhen => (ha.watched e he hwhen).elapse now, ha.timed, ha.after⟩
  | timerfdExpires =>
    cases h
    exact ⟨fun e he hwhen => trivial, ha.timed, ha.after⟩
  | beginRead => exact ha.beginRead hs hc h
  | runNext =>
    obtain ⟨b, hb, hne⟩ := he
    obtain ⟨e, rest, hrest⟩ := List.exists_cons_of_ne_nil hne
    simp only [machine, TimerRun.step, Option.mem_def.mp hb, hrest, TimerRun.runNext] at h
    obtain ⟨t, -, h⟩ := bind_ok h
    cases h
    refine ⟨fun e he hwhen => ha.watched e he (.inr (hwhen.resolve_left (by simp))), ha.timed, ?_⟩
    intro b' hb'
    cases hb'
    exact ha.after b hb
  | endRead =>
    obtain ⟨b, hb, hrest⟩ := he
    simp only [machine, TimerRun.step, Option.mem_def.mp hb] at h
    exact ha.endRead hs hb hrest hc h

/-- Unless `handleRead` is executing, a pending timer has a wake-up before it. -/
def Awaited (s : TimerRun) : Prop :=
  s.expiry = none → s.queue.timers.elems ≠ [] → s.queue.timerfd.WakesFor s.queue.timers.elems

theorem Attended.awaited (ha : Attended s) : Awaited s := by
  intro hidle hne
  obtain ⟨e₀, es₀, hfirst⟩ := List.exists_cons_of_ne_nil hne
  have hcovers : ∀ e ∈ s.queue.timers, s.queue.timerfd.Covers e.expiration :=
    fun e he => ha.watched e he (.inl hidle)
  have hmem := (TimerQueue.head_earliest hfirst).1
  cases hfd : s.queue.timerfd with
  | disarmed =>
    have := hcovers e₀ hmem
    rw [hfd] at this
    exact this
  | expired => trivial
  | armed deadline since =>
    intro e he
    have := hcovers e (OrderedSet.mem_def.mpr he)
    rw [hfd] at this
    exact this

/-- As long as no time overflows, no pending timer is left without a wake-up. -/
theorem pending_timers_armed {es : List Event} (hl : machine.Legal NoOverflow initial es) :
    Yields Awaited (fun _ => False) (machine.run initial es) := by
  have hrun : Yields (fun s => Sound s ∧ Attended s) (fun _ => False)
      (machine.run initial es) := by
    refine Machine.run_keeps ?_ ⟨initial_sound, initial_attended⟩ hl
    intro s e hs he hc
    obtain ⟨s', hstep, hs'⟩ := hs.1.step he
    rw [hstep]
    exact ⟨hs', hs.2.step hs.1 he hc hstep⟩
  exact hrun.mono fun s hs => hs.2.awaited

instance (timers : List Entry) : ∀ fd : Timerfd, Decidable (fd.WakesFor timers)
  | .disarmed => isFalse id
  | .armed _ _ => inferInstanceAs (Decidable (∀ e ∈ timers, _))
  | .expired => isTrue trivial

instance (s : TimerRun) : Decidable s.Awaited :=
  inferInstanceAs (Decidable (_ → _ → s.queue.timerfd.WakesFor _))

instance (q : TimerQueue) (timer : Addr) : Decidable (q.ArmFits timer) :=
  inferInstanceAs (Decidable (∀ t ∈ q.heap timer, _ → _ ∧ _))

instance (q : TimerQueue) (now : Timestamp) (timer : Addr) : Decidable (q.RestartFits now timer) :=
  inferInstanceAs (Decidable (∀ t ∈ q.heap timer, _ ∧ _ → _))

instance : ∀ s e, Decidable (NoOverflow s e)
  | _, .newTimer .. => inferInstanceAs (Decidable (_ ∧ _))
  | s, .addTimerInLoop timer => inferInstanceAs (Decidable (s.queue.ArmFits timer))
  | _, .cancelInLoop _ => isTrue trivial
  | _, .setClock _ => isTrue trivial
  | _, .timerfdExpires => isTrue trivial
  | s, .beginRead => inferInstanceAs (Decidable (0 < s.queue.clock))
  | _, .runNext => isTrue trivial
  | s, .endRead => inferInstanceAs (Decidable (_ ∧ ∀ b ∈ s.expiry, _))

/-- A callback adds a timer for the far past and cancels the one that is armed for; then the
timerfd expires once more, for nothing. -/
def sampleArmings : List Event :=
  [.setClock 50, .newTimer 16 100 20 true, .newTimer 32 400 0 false, .addTimerInLoop 16,
    .addTimerInLoop 32, .setClock 160, .beginRead, .runNext, .newTimer 48 (-5) 0 false,
    .addTimerInLoop 48, .cancelInLoop ⟨32, 2⟩, .endRead, .timerfdExpires]

theorem pending_timers_armed_sample :
    Yields Awaited (fun _ => False) (machine.run initial sampleArmings) :=
  pending_timers_armed (by decide +kernel)

/-- The difference to a time too long ago overflows. -/
def farPast : List Event :=
  [.setClock 1700000000000000, .newTimer 16 (-2 ^ 63) 0 false, .addTimerInLoop 16]

/-- A timer is to be repeated after its sum with the clock has overflowed. -/
def hugeInterval : List Event :=
  [.setClock 1700000000000000, .newTimer 16 1700000000000000 9223372000000000000 true,
    .addTimerInLoop 16, .setClock 1700000000000100, .beginRead, .runNext, .endRead]

/-- The timerfd is armed for some time behind the end of all clocks, or not at all. -/
theorem overflow_unarmed :
    (machine.Legal (fun _ _ => True) initial farPast ∧
      Yields (fun s => ¬Awaited s) (fun _ => False) (machine.run initial farPast)) ∧
    (machine.Legal (fun _ _ => True) initial hugeInterval ∧
      Yields (fun s => ¬Awaited s) (fun _ => False) (machine.run initial hugeInterval)) := by
  decide +kernel

end TimerRun

end Muduo.Net
