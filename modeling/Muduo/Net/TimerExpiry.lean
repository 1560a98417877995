import Muduo.Net.TimerBooks

namespace Muduo.Net
open Muduo.Lib

namespace TimerQueue

/-- The loop of `handleRead` over the callbacks, which leave the queue alone. -/
def runCallbacks (q : TimerQueue) : List Entry → Except Fault TimerQueue
  | [] => .ok q
  | e :: es => do
    let _ ← q.deref e.timer
    runCallbacks q es

/-- `handleRead` with such callbacks; the clock reads `later` when they are done. -/
def handleRead (q : TimerQueue) (later : Timestamp) : Except Fault (List Entry × TimerQueue) := do
  let now := q.clock
  let (expired, q) ← q.beginRead
  let q ← q.runCallbacks expired
  let q ← { q with clock := later }.endRead expired now
  .ok (expired, q)

/-- Exactly the timers of the set that expire at or before `now`, once and in order. -/
structure Due (q : TimerQueue) (now : Timestamp) (expired : List Entry) : Prop where
  mem : ∀ e, e ∈ expired ↔ e ∈ q.timers ∧ e.expiration ≤ now
  once : (expired.map Entry.timer).Nodup
  ordered : expired.Pairwise fun e e' => e.expiration ≤ e'.expiration

/-- `activeTimers_` has the timers of `timers_`, under their numbers. -/
def SameTimers (q : TimerQueue) : Prop :=
  ∀ p n, ⟨p, n⟩ ∈ q.activeTimers ↔
    ∃ t, q.heap p = some t ∧ t.sequence = n ∧ ⟨t.expiration, p⟩ ∈ q.timers

/-- What `getExpired` leaves. -/
structure Later (q : TimerQueue) (now : Timestamp) (q' : TimerQueue) : Prop where
  timers : ∀ e, e ∈ q'.timers ↔ e ∈ q.timers ∧ now < e.expiration
  same : q'.SameTimers
  heap : q'.heap = q.heap

/-- The timer is in the set, and expires at or before `now`. -/
def Expires (q : TimerQueue) (now : Timestamp) (p : Addr) (t : Timer) : Prop :=
  q.heap p = some t ∧ ⟨t.expiration, p⟩ ∈ q.timers ∧ t.expiration ≤ now

/-- What `handleRead` leaves: of the expired timers the repeating ones are back, for `now` and
their interval, and the others are freed; nothing else has changed. -/
structure Restarted (q : TimerQueue) (now : Timestamp) (q' : TimerQueue) : Prop where
  timers : ∀ w p, ⟨w, p⟩ ∈ q'.timers ↔ (⟨w, p⟩ ∈ q.timers ∧ now < w) ∨
    ∃ t, q.Expires now p t ∧ t.repeats = true ∧ w = now.addTime t.interval
  same : q'.SameTimers
  back : ∀ p t, q.Expires now p t → t.repeats = true →
    q'.heap p = some { t with expiration := now.addTime t.interval }
  freed : ∀ p t, q.Expires now p t → t.repeats = false → q'.heap p = none
  others : ∀ p, (∀ t, ¬q.Expires now p t) → q'.heap p = q.heap p

variable {q : TimerQueue} {loose : List Addr} {p : Addr} {t : Timer} {now : Timestamp}

theorem Books.due (hb : q.Books loose) (now : Timestamp) : q.Due now (q.expiredAt now) := by
  refine ⟨fun e => hb.mem_expiredAt, hb.expiredAt_nodup now, ?_⟩
  refine (OrderedSet.below_sorted q.timers _).imp ?_
  intro e e' hlt
  rcases Entry.lt_iff.mp hlt with h | ⟨h, -⟩
  · exact le_of_lt h
  · exact le_of_eq h

theorem Books.same (hb : q.Books loose) : q.SameTimers := by
  intro p n
  rw [hb.active]
  constructor
  · rintro ⟨t, ht, hn, hout⟩
    exact ⟨t, ht, hn, (hb.timers _ p).mpr ⟨t, ht, rfl, hout⟩⟩
  · rintro ⟨t, ht, hn, hmem⟩
    obtain ⟨_, _, _, hout⟩ := (hb.timers _ p).mp hmem
    exact ⟨t, ht, hn, hout⟩

/-- What an expired timer becomes. -/
def restarted (now : Timestamp) (t : Timer) : Option Timer :=
  if t.repeats then some (t.restart now) else none

/-- The loop of `reset`, when no timer is being cancelled. -/
theorem Books.resetAll (es : List Entry) (hb : q.Books (es.map Entry.timer ++ loose))
    (hc : ∀ a, a ∉ q.cancelingTimers) (now : Timestamp) :
    ∃ q', es.foldlM (fun q e => q.resetOne now e) q = .ok q' ∧ q'.Books loose ∧
      ∀ p, q'.heap p = if p ∈ es.map Entry.timer then (q.heap p).bind (restarted now)
        else q.heap p := by
  induction es generalizing q with
  | nil => exact ⟨q, rfl, hb, fun p => (if_neg List.not_mem_nil).symm⟩
  | cons e es ih =>
    obtain ⟨w, p⟩ := e
    obtain ⟨t, ht⟩ := hb.live p List.mem_cons_self
    have hnodup : p ∉ es.map Entry.timer := fun h =>
      (List.nodup_cons.mp hb.nodup).1 (List.mem_append_left _ h)
    -- one turn changes the object of `p` only
    have hturn : ∃ q₁, q.resetOne now ⟨w, p⟩ = .ok q₁ ∧
        q₁.Books (es.map Entry.timer ++ loose) ∧ q₁.cancelingTimers = q.cancelingTimers ∧
        q₁.heap = Function.update q.heap p (restarted now t) := by
      by_cases hr : t.repeats = true
      · obtain ⟨q', rfl, hone, hbooks⟩ := hb.resetOne_restarts (w := w) ht ⟨hr, hc _⟩ now
        exact ⟨_, hone, hbooks, rfl, by rw [restarted, if_pos hr]; rfl⟩
      · obtain ⟨hone, hbooks⟩ := hb.resetOne_frees (w := w) ht (fun h => hr h.1) now
        exact ⟨_, hone, hbooks, rfl, by rw [restarted, if_neg hr]; rfl⟩
    obtain ⟨q₁, hone, hbooks, hcancel, hheap₁⟩ := hturn
    obtain ⟨q', hrest, hbooks', hheap⟩ := ih hbooks (by rw [hcancel]; exact hc)
    refine ⟨q', by rw [List.foldlM_cons, hone, ok_bind, hrest], hbooks', fun p' => ?_⟩
    rw [hheap, hheap₁]
    by_cases h : p' = p
    · subst h
      rw [if_neg hnodup, Function.update_self, List.map_cons, if_pos List.mem_cons_self, ht]
      rfl
    · simp only [Function.update_of_ne h, List.map_cons, List.mem_cons, h, false_or]

theorem runCallbacks_eq (es : List Entry) (h : ∀ e ∈ es, ∃ t, q.heap e.timer = some t) :
    q.runCallbacks es = .ok q := by
  induction es with
  | nil => rfl
  | cons e es ih =>
    obtain ⟨t, ht⟩ := h e List.mem_cons_self
    rw [runCallbacks, deref_of_live ht, ok_bind]
    exact ih fun e he => h e (List.mem_cons_of_mem _ he)

theorem Books.mem_expired (hb : q.Books loose) :
    p ∈ (q.expiredAt now).map Entry.timer ↔ ∃ t, q.Expires now p t := by
  constructor
  · intro h
    obtain ⟨⟨w, p⟩, he, rfl⟩ := List.mem_map.mp h
    obtain ⟨hmem, hle⟩ := hb.mem_expiredAt.mp he
    obtain ⟨t, ht, rfl, -⟩ := (hb.timers w p).mp hmem
    exact ⟨t, ht, hmem, hle⟩
  · rintro ⟨t, _, hmem, hle⟩
    exact List.mem_map_of_mem (f := Entry.timer) (hb.mem_expiredAt.mpr ⟨hmem, hle⟩)

theorem Expires.unique {t' : Timer} (h : q.Expires now p t) (h' : q.Expires now p t') : t = t' :=
  Option.some.inj (h.1.symm.trans h'.1)

/-- A queue whose books are in order, and whose expired timers have been gone through. -/
theorem Books.restarted {q' : TimerQueue} (hb : q.Books loose) (hb' : q'.Books loose)
    (hheap : ∀ p, q'.heap p = if p ∈ (q.expiredAt now).map Entry.timer then
      (q.heap p).bind (restarted now) else q.heap p) : q.Restarted now q' := by
  have hback : ∀ p t, q.Expires now p t → q'.heap p = TimerQueue.restarted now t := by
    intro p t h
    rw [hheap, if_pos (hb.mem_expired.mpr ⟨t, h⟩), h.1]
    rfl
  have hother : ∀ p, (∀ t, ¬q.Expires now p t) → q'.heap p = q.heap p := by
    intro p h
    rw [hheap, if_neg fun hmem => ?_]
    obtain ⟨t, ht⟩ := hb.mem_expired.mp hmem
    exact h t ht
  have hagain : ∀ p t, q.Expires now p t → t.repeats = true →
      q'.heap p = some { t with expiration := now.addTime t.interval } := by
    intro p t h hr
    rw [hback p t h, TimerQueue.restarted, if_pos hr, Timer.restart, if_pos hr]
  refine ⟨fun w p => ?_, hb'.same, hagain, fun p t h hr => ?_, hother⟩
  · rw [hb'.timers]
    by_cases hexp : ∃ t, q.Expires now p t
    · obtain ⟨t, ht⟩ := hexp
      obtain ⟨_, _, _, hout⟩ := (hb.timers _ p).mp ht.2.1
      constructor
      · rintro ⟨u, hu, rfl, _⟩
        by_cases hr : t.repeats = true
        · cases (hagain p t ht hr).symm.trans hu
          exact .inr ⟨t, ht, hr, rfl⟩
        · rw [hback p t ht, TimerQueue.restarted, if_neg hr] at hu
          cases hu
      · rintro (⟨hmem, hlt⟩ | ⟨t', ht', hr, rfl⟩)
        · obtain ⟨u, hu, rfl, _⟩ := (hb.timers w p).mp hmem
          cases ht.1.symm.trans hu
          exact absurd ht.2.2 (not_le_of_gt hlt)
        · exact ⟨_, hagain p t' ht' hr, rfl, hout⟩
    · have hnone : ∀ t, ¬q.Expires now p t := fun t ht => hexp ⟨t, ht⟩
      rw [hother p hnone, ← hb.timers]
      constructor
      · intro hmem
        obtain ⟨t, ht, rfl, _⟩ := (hb.timers w p).mp hmem
        exact .inl ⟨hmem, not_le.mp fun hle => hnone t ⟨ht, hmem, hle⟩⟩
      · rintro (⟨hmem, _⟩ | ⟨t, ht, _⟩)
        · exact hmem
        · exact absurd ht (hnone t)
  · rw [hback p t h, TimerQueue.restarted, if_neg (by simp [hr])]

/-- `handleRead` goes through, and leaves what it should. -/
theorem Books.handleRead (hb : q.Books loose) (later : Timestamp) :
    ∃ q', q.handleRead later = .ok (q.expiredAt q.clock, q') ∧ q.Restarted q.clock q' := by
  obtain ⟨a, hbegin, hbooks⟩ := hb.beginRead
  have hrun := runCallbacks_eq (q.expiredAt q.clock) fun e he =>
    hbooks.live e.timer (List.mem_append_left _ (List.mem_map_of_mem (f := Entry.timer) he))
  -- the queue as `reset` finds it
  let q₂ : TimerQueue := { q with
    clock := later
    timerfd := q.timerfd.readTimerfd
    timers := q.timers.above ⟨q.clock, uintptrMax⟩
    activeTimers := a
    callingExpiredTimers := false
    cancelingTimers := .empty }
  have hbooks₂ : q₂.Books ((q.expiredAt q.clock).map Entry.timer ++ loose) :=
    hbooks.congr rfl rfl rfl rfl
  obtain ⟨q₃, hreset, hbooks₃, hheap⟩ := hbooks₂.resetAll (q.expiredAt q.clock)
    (fun _ => OrderedSet.not_mem_empty) q.clock
  obtain ⟨w, hnext⟩ := hbooks₃.nextExpire
  have hend : ∃ fd, q₂.reset (q.expiredAt q.clock) q.clock = .ok { q₃ with timerfd := fd } := by
    rw [TimerQueue.reset, hreset, ok_bind, hnext, ok_bind]
    by_cases hw : w.valid
    · exact ⟨_, if_pos hw⟩
    · exact ⟨q₃.timerfd, if_neg hw⟩
  obtain ⟨fd, hend⟩ := hend
  refine ⟨{ q₃ with timerfd := fd }, ?_, hb.restarted (hbooks₃.congr rfl rfl rfl rfl) hheap⟩
  rw [TimerQueue.handleRead, hbegin]
  simp only [ok_bind, hrun]
  exact congrArg (· >>= fun q => Except.ok (_, q)) hend

/-- Expiry is exact and in order, and one `handleRead` restarts or frees each expired timer. The
sum for which a timer is back is an `int64_t`'s. -/
theorem expiry_exact (hb : q.Books loose) :
    (∀ now, ∃ expired q', q.getExpired now = .ok (expired, q') ∧ q.Due now expired ∧
      q.Later now q') ∧
    (∀ later, ∃ expired q', q.handleRead later = .ok (expired, q') ∧ q.Due q.clock expired ∧
      q.Restarted q.clock q') ∧
    ∀ now interval : Int, FitsInt64 now → 0 ≤ interval → interval < 2 ^ 63 →
      Timestamp.addTime now interval =
        if now + interval < 2 ^ 63 then now + interval else now + interval - 2 ^ 64 := by
  refine ⟨?_, ?_, ?_⟩
  · intro now
    obtain ⟨a, hget, hbooks⟩ := hb.getExpired now
    exact ⟨_, _, hget, hb.due now, fun e => hb.above_iff e, hbooks.same, rfl⟩
  · intro later
    obtain ⟨q', hread, hrestarted⟩ := hb.handleRead later
    exact ⟨_, q', hread, hb.due q.clock, hrestarted⟩
  · intro now interval hnow hinterval hlt
    exact Timestamp.addTime_eq hnow hinterval hlt

/-- Three timers: two for the same time, one of them repeating, and one for later. -/
def sampleTimers : TimerQueue :=
  let q := initial.newTimer 8 5 0 false
  let q := (q.newTimer 4 5 10 true).newTimer 6 7 0 false
  { ((q.enter 8 ⟨5, 0, false, 1⟩).enter 4 ⟨5, 10, true, 2⟩).enter 6 ⟨7, 0, false, 3⟩ with
    clock := 5 }

theorem sampleTimers_books : sampleTimers.Books [] := by
  have hb₁ := initial_books.newTimer (p := 8) rfl (by decide) 5 0 false
  have hb₂ := hb₁.newTimer (p := 4) rfl (by decide) 5 10 true
  have hb₃ := hb₂.newTimer (p := 6) rfl (by decide) 7 0 false
  have he₃ := (hb₃.perm (show List.Perm [6, 4, 8] [8, 4, 6] by decide)).insert
    (t := ⟨5, 0, false, 1⟩) rfl
  have he₂ := he₃.2.insert (t := ⟨5, 10, true, 2⟩) rfl
  have he₁ := he₂.2.insert (t := ⟨7, 0, false, 3⟩) rfl
  exact he₁.2.congr rfl rfl rfl rfl

theorem expiry_exact_sample :
    (∀ now, ∃ expired q', sampleTimers.getExpired now = .ok (expired, q') ∧
      sampleTimers.Due now expired ∧ sampleTimers.Later now q') ∧
    (∀ later, ∃ expired q', sampleTimers.handleRead later = .ok (expired, q') ∧
      sampleTimers.Due sampleTimers.clock expired ∧
      sampleTimers.Restarted sampleTimers.clock q') ∧
    ∀ now interval : Int, FitsInt64 now → 0 ≤ interval → interval < 2 ^ 63 →
      Timestamp.addTime now interval =
        if now + interval < 2 ^ 63 then now + interval else now + interval - 2 ^ 64 :=
  expiry_exact sampleTimers_books

end TimerQueue

end Muduo.Net
