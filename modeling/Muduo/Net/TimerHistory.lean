import Muduo.Net.TimerBooks

namespace Muduo.Net
open Muduo.Lib

namespace TimerRun

/-- The timers of a batch are `called` once their callback has run. -/
structure History (s : TimerRun) (called uncalled : List Addr) : Prop where
  recorded : ∀ p t, s.queue.heap p = some t → ∃ c ∈ s.created, c.id = ⟨p, t.sequence⟩ ∧
    c.repeats = t.repeats ∧ (t.repeats = false → c.when = t.expiration)
  counted : ∀ c ∈ s.created, c.id.sequence ≤ s.queue.numCreated
  keys : (s.created.map (·.id.sequence)).Nodup
  waiting : ∀ p t, s.queue.heap p = some t → (p ∈ s.waiting ↔ t.sequence ∉ s.inserted)
  inserted : ∀ n ∈ s.inserted, n ≤ s.queue.numCreated
  due : ∀ n ∈ s.due, n ∈ s.inserted
  ran : ∀ n ∈ s.ran, n ≤ s.queue.numCreated
  runs : ∀ p t, s.queue.heap p = some t → t.repeats = false →
    s.ran.count t.sequence = if p ∈ called then 1 else 0
  dues : ∀ p t, s.queue.heap p = some t → t.repeats = false → t.sequence ∈ s.due →
    p ∈ called ∨ p ∈ uncalled
  dead : ∀ c ∈ s.created, (∀ p t, s.queue.heap p = some t → t.sequence ≠ c.id.sequence) →
    c.repeats = false → s.ran.count c.id.sequence = 1 ∨
      s.ran.count c.id.sequence = 0 ∧ c.id ∈ s.cancelled
  freed : ∀ f ∈ s.queue.freed, f.inTimers = false ∧ f.sequence ≤ s.queue.numCreated ∧
    ∀ p t, s.queue.heap p = some t → t.sequence ≠ f.sequence
  freedOnce : (s.queue.freed.map Freed.sequence).Nodup

variable {s : TimerRun} {called uncalled loose : List Addr} {p : Addr} {t : Timer}

theorem initial_history : History initial [] [] where
  recorded := by simp [initial, TimerQueue.initial]
  counted := by simp [initial]
  keys := .nil
  waiting := by simp [initial, TimerQueue.initial]
  inserted := by simp [initial]
  due := by simp [initial]
  ran := by simp [initial]
  runs := by simp [initial, TimerQueue.initial]
  dues := by simp [initial, TimerQueue.initial]
  dead := by simp [initial]
  freed := by simp [initial, TimerQueue.initial]
  freedOnce := .nil

theorem History.newTimer (hh : History s called uncalled) (hp : s.queue.heap p = none)
    (hcalled : p ∉ called) (when : Timestamp) (interval : Int)
    (repeats : Bool) : History (s.addTimer p when interval repeats) called uncalled := by
  -- the heap holds what it held, and the new timer
  have hheap : ∀ p' u, (s.addTimer p when interval repeats).queue.heap p' = some u →
      p' = p ∧ u = ⟨when, interval, repeats, s.queue.numCreated + 1⟩ ∨
        p' ≠ p ∧ s.queue.heap p' = some u := by
    intro p' u hu
    by_cases h : p' = p
    · subst h
      simp only [addTimer, TimerQueue.newTimer, Function.update_self, Option.some.injEq] at hu
      exact .inl ⟨rfl, hu.symm⟩
    · simp only [addTimer, TimerQueue.newTimer, Function.update_of_ne h] at hu
      exact .inr ⟨h, hu⟩
  have hlater : ∀ n, n ≤ s.queue.numCreated → n ≤ s.queue.numCreated + 1 :=
    fun n h => Nat.le_succ_of_le h
  refine ⟨?_, ?_, ?_, ?_, fun n h => hlater n (hh.inserted n h), hh.due,
    fun n h => hlater n (hh.ran n h), ?_, ?_, ?_, ?_, hh.freedOnce⟩
  · intro p' u hu
    rcases hheap p' u hu with ⟨rfl, rfl⟩ | ⟨-, hu⟩
    · exact ⟨_, List.mem_append_right _ (List.mem_singleton_self _), rfl, rfl, fun _ => rfl⟩
    · obtain ⟨c, hc, h⟩ := hh.recorded p' u hu
      exact ⟨c, List.mem_append_left _ hc, h⟩
  · intro c hc
    rcases List.mem_append.mp hc with hc | hc
    · exact hlater _ (hh.counted c hc)
    · rw [List.mem_singleton.mp hc]
      exact le_refl _
  · simp only [addTimer, List.map_append, List.map_cons, List.map_nil]
    refine List.nodup_append'.mpr ⟨hh.keys, List.nodup_singleton _, ?_⟩
    intro n hn hn'
    obtain ⟨c, hc, rfl⟩ := List.mem_map.mp hn
    have := hh.counted c hc
    rw [List.mem_singleton.mp hn'] at this
    omega
  · intro p' u hu
    rcases hheap p' u hu with ⟨rfl, rfl⟩ | ⟨hne, hu⟩
    · refine iff_of_true (List.mem_append_right _ (List.mem_singleton_self _)) fun h => ?_
      have := hh.inserted _ h
      simp only at this
      omega
    · simpa [addTimer, hne] using hh.waiting p' u hu
  · intro p' u hu hr
    rcases hheap p' u hu with ⟨rfl, rfl⟩ | ⟨-, hu⟩
    · rw [if_neg hcalled, List.count_eq_zero]
      intro h
      have := hh.ran _ h
      simp only at this
      omega
    · exact hh.runs p' u hu hr
  · intro p' u hu hr hd
    rcases hheap p' u hu with ⟨rfl, rfl⟩ | ⟨-, hu⟩
    · have := hh.inserted _ (hh.due _ hd)
      simp only at this
      omega
    · exact hh.dues p' u hu hr hd
  · intro c hc hdead hr
    rcases List.mem_append.mp hc with hc | hc
    · refine hh.dead c hc (fun p' u hu => hdead p' u ?_) hr
      by_cases h : p' = p
      · rw [h, hp] at hu
        cases hu
      · simp only [addTimer, TimerQueue.newTimer, Function.update_of_ne h, hu]
    · rw [List.mem_singleton.mp hc] at hdead
      exact absurd rfl (hdead p _ (Function.update_self ..))
  · intro f hf
    obtain ⟨hin, hle, hgone⟩ := hh.freed f hf
    refine ⟨hin, hlater _ hle, fun p' u hu => ?_⟩
    rcases hheap p' u hu with ⟨rfl, rfl⟩ | ⟨-, hu⟩
    · simp only
      omega
    · exact hgone p' u hu

theorem History.addTimerInLoop (hh : History s called uncalled) (hb : s.queue.Books loose)
    (hnodup : s.waiting.Nodup) (ht : s.queue.heap p = some t) (fd : Timerfd) :
    History { s with
      queue := { s.queue.enter p t with timerfd := fd }
      waiting := s.waiting.erase p
      inserted := s.inserted ++ [t.sequence] } called uncalled := by
  refine { hh with waiting := ?_, inserted := ?_, due := ?_ }
  · intro p' u hu
    change s.queue.heap p' = some u at hu
    rw [hnodup.mem_erase_iff, List.mem_append, List.mem_singleton, not_or, ← hh.waiting p' u hu]
    by_cases h : p' = p
    · subst h
      rw [ht, Option.some.injEq] at hu
      simp [hu]
    · have hne : u.sequence ≠ t.sequence := fun heq => h (hb.distinct p' p u t hu ht heq)
      simp [h, hne]
  · intro n hn
    rcases List.mem_append.mp hn with hn | hn
    · exact hh.inserted n hn
    · rw [List.mem_singleton.mp hn]
      exact hb.counted p t ht
  · exact fun n hn => List.mem_append_left _ (hh.due n hn)

/-- A timer may die after its callback ran, or when it has been cancelled. -/
theorem History.kill (hh : History s called uncalled) (hb : s.queue.Books loose)
    (ht : s.queue.heap p = some t) (hwhy : p ∈ called ∨ ⟨p, t.sequence⟩ ∈ s.cancelled)
    (called' : List Addr) (hcalled : ∀ p', p' ≠ p → (p' ∈ called' ↔ p' ∈ called))
    (q' : TimerQueue) (listed : Bool)
    (hheap : q'.heap = Function.update s.queue.heap p none)
    (hnum : q'.numCreated = s.queue.numCreated)
    (hfreed : q'.freed = s.queue.freed ++ [⟨t.sequence, false, listed⟩]) :
    History { s with queue := q' } called' uncalled := by
  have hold : ∀ p' u, q'.heap p' = some u → p' ≠ p ∧ s.queue.heap p' = some u := by
    intro p' u hu
    rw [hheap] at hu
    by_cases h : p' = p
    · subst h
      rw [Function.update_self] at hu
      exact nomatch hu
    · rw [Function.update_of_ne h] at hu
      exact ⟨h, hu⟩
  refine ⟨fun p' u hu => hh.recorded p' u (hold p' u hu).2, ?_, hh.keys,
    fun p' u hu => hh.waiting p' u (hold p' u hu).2, ?_, hh.due, ?_, ?_, ?_, ?_, ?_, ?_⟩
  · rw [hnum]; exact hh.counted
  · rw [hnum]; exact hh.inserted
  · rw [hnum]; exact hh.ran
  · intro p' u hu hr
    obtain ⟨hne, hu⟩ := hold p' u hu
    simp only [hcalled p' hne]
    exact hh.runs p' u hu hr
  · intro p' u hu hr hd
    obtain ⟨hne, hu⟩ := hold p' u hu
    rw [hcalled p' hne]
    exact hh.dues p' u hu hr hd
  · intro c hc hdead hr
    by_cases heq : t.sequence = c.id.sequence
    · -- the record of the timer that dies
      obtain ⟨c', hc', hid, hrep, -⟩ := hh.recorded p t ht
      have hsame : c' = c := List.inj_on_of_nodup_map hh.keys hc' hc (by rw [hid, ← heq])
      subst hsame
      have hcount := hh.runs p t ht (by rw [← hrep]; exact hr)
      rw [hid]
      by_cases hp : p ∈ called
      · rw [if_pos hp] at hcount
        exact .inl hcount
      · rw [if_neg hp] at hcount
        exact .inr ⟨hcount, hwhy.resolve_left hp⟩
    · refine hh.dead c hc (fun p' u hu => ?_) hr
      by_cases h : p' = p
      · subst h
        rw [ht, Option.some.injEq] at hu
        rw [← hu]
        exact heq
      · exact hdead p' u (by rw [hheap, Function.update_of_ne h]; exact hu)
  · intro f hf
    rw [hnum]
    rw [hfreed] at hf
    rcases List.mem_append.mp hf with hf | hf
    · obtain ⟨hin, hle, hgone⟩ := hh.freed f hf
      exact ⟨hin, hle, fun p' u hu => hgone p' u (hold p' u hu).2⟩
    · rw [List.mem_singleton.mp hf]
      refine ⟨rfl, hb.counted p t ht, fun p' u hu heq => ?_⟩
      obtain ⟨hne, hu⟩ := hold p' u hu
      exact hne (hb.distinct p' p u t hu ht heq)
  · rw [hfreed, List.map_append]
    refine List.nodup_append'.mpr ⟨hh.freedOnce, List.nodup_singleton _, ?_⟩
    intro n hn hn'
    obtain ⟨f, hf, rfl⟩ := List.mem_map.mp hn
    exact (hh.freed f hf).2.2 p t ht (List.mem_singleton.mp hn').symm

/-- The timers that had expired when the batch was taken are in the batch. -/
theorem History.beginRead (hh : History s [] []) (hb : s.queue.Books s.waiting)
    (q' : TimerQueue) (hheap : q'.heap = s.queue.heap)
    (hnum : q'.numCreated = s.queue.numCreated) (hfreed : q'.freed = s.queue.freed)
    (b : Expiry) :
    History { s with
      queue := q'
      expiry := some b
      due := s.due ++ (s.created.filter fun c =>
        c.id.sequence ∈ s.inserted ∧ c.when ≤ s.queue.clock).map (·.id.sequence) }
      [] ((s.queue.expiredAt s.queue.clock).map Entry.timer) := by
  refine ⟨?_, ?_, hh.keys, ?_, ?_, ?_, ?_, ?_, ?_, ?_, ?_, ?_⟩
  · rw [hheap]; exact hh.recorded
  · rw [hnum]; exact hh.counted
  · rw [hheap]; exact hh.waiting
  · rw [hnum]; exact hh.inserted
  · intro n hn
    rcases List.mem_append.mp hn with hn | hn
    · exact hh.due n hn
    · obtain ⟨c, hc, rfl⟩ := List.mem_map.mp hn
      exact (of_decide_eq_true (List.mem_filter.mp hc).2).1
  · rw [hnum]; exact hh.ran
  · rw [hheap]; exact hh.runs
  · intro p u hu hr hd
    change q'.heap p = some u at hu
    rw [hheap] at hu
    rcases List.mem_append.mp hd with hd | hd
    · rcases hh.dues p u hu hr hd with h | h
      · exact nomatch h
      · exact nomatch h
    · obtain ⟨c, hc, heq⟩ := List.mem_map.mp hd
      obtain ⟨hc, hfilter⟩ := List.mem_filter.mp hc
      obtain ⟨hin, hle⟩ := of_decide_eq_true hfilter
      obtain ⟨c', hc', hid, -, hwhen⟩ := hh.recorded p u hu
      have hsame : c' = c := List.inj_on_of_nodup_map hh.keys hc' hc (by rw [hid, heq])
      subst hsame
      have hout : p ∉ s.waiting := fun h => (hh.waiting p u hu).mp h (heq ▸ hin)
      have hmem : (⟨u.expiration, p⟩ : Entry) ∈ s.queue.timers :=
        (hb.timers _ p).mpr ⟨u, hu, rfl, hout⟩
      have hle' : u.expiration ≤ s.queue.clock := by
        rw [← hwhen hr]
        exact hle
      have hexp := hb.mem_expiredAt.mpr ⟨hmem, hle'⟩
      exact .inr (List.mem_map_of_mem (f := Entry.timer) hexp)
  · rw [hheap]; exact hh.dead
  · rw [hheap, hnum, hfreed]; exact hh.freed
  · rw [hfreed]; exact hh.freedOnce

/-- A callback that is about to run has not run for a one-shot timer before. -/
theorem History.runNext (hh : History s called (p :: uncalled)) (hb : s.queue.Books loose)
    (ht : s.queue.heap p = some t) (hfresh : p ∉ called) (b : Expiry) :
    History { s with expiry := some b, ran := s.ran ++ [t.sequence] }
      (called ++ [p]) uncalled := by
  refine { hh with ran := ?_, runs := ?_, dues := ?_, dead := ?_ }
  · intro n hn
    rcases List.mem_append.mp hn with hn | hn
    · exact hh.ran n hn
    · rw [List.mem_singleton.mp hn]
      exact hb.counted p t ht
  · intro p' u hu hr
    have hcount := hh.runs p' u hu hr
    by_cases h : p' = p
    · subst h
      rw [ht, Option.some.injEq] at hu
      rw [if_neg hfresh] at hcount
      simp [hu, hcount]
    · have hne : t.sequence ≠ u.sequence := fun heq => h (hb.distinct p' p u t hu ht heq.symm)
      simp [List.count_append, hcount, hne, h]
  · intro p' u hu hr hd
    rcases hh.dues p' u hu hr hd with h | h
    · exact .inl (List.mem_append_left _ h)
    · rcases List.mem_cons.mp h with rfl | h
      · exact .inl (List.mem_append_right _ (List.mem_singleton_self _))
      · exact .inr h
  · intro c hc hdead hr
    have hne : t.sequence ≠ c.id.sequence := hdead p t ht
    simpa [List.count_append, hne] using hh.dead c hc hdead hr

/-- A repeating timer that goes back into the sets is the same timer. -/
theorem History.restart (hh : History s (p :: called) uncalled) (ht : s.queue.heap p = some t)
    (hr : t.repeats = true) (now : Timestamp) (q' : TimerQueue)
    (hheap : q'.heap = Function.update s.queue.heap p (some (t.restart now)))
    (hnum : q'.numCreated = s.queue.numCreated) (hfreed : q'.freed = s.queue.freed) :
    History { s with queue := q' } called uncalled := by
  have hold : ∀ p' u, q'.heap p' = some u →
      p' = p ∧ u = t.restart now ∨ p' ≠ p ∧ s.queue.heap p' = some u := by
    intro p' u hu
    rw [hheap] at hu
    by_cases h : p' = p
    · subst h
      rw [Function.update_self, Option.some.injEq] at hu
      exact .inl ⟨rfl, hu.symm⟩
    · rw [Function.update_of_ne h] at hu
      exact .inr ⟨h, hu⟩
  -- no timer dies, and the restarted one is not one-shot
  have hlive : ∀ n, (∀ p' u, q'.heap p' = some u → u.sequence ≠ n) →
      ∀ p' u, s.queue.heap p' = some u → u.sequence ≠ n := by
    intro n hn p' u hu
    by_cases h : p' = p
    · subst h
      rw [ht, Option.some.injEq] at hu
      rw [← hu, ← Timer.restart_sequence t now]
      exact hn p' _ (by rw [hheap, Function.update_self])
    · exact hn p' u (by rw [hheap, Function.update_of_ne h, hu])
  have hrepeat : (t.restart now).repeats ≠ false := by simp [hr]
  refine ⟨?_, ?_, hh.keys, ?_, ?_, hh.due, ?_, ?_, ?_, ?_, ?_, ?_⟩
  · intro p' u hu
    rcases hold p' u hu with ⟨rfl, rfl⟩ | ⟨-, hu⟩
    · obtain ⟨c, hc, hid, hrep, -⟩ := hh.recorded p' t ht
      exact ⟨c, hc, by simpa using hid, by simpa using hrep, fun h => absurd h hrepeat⟩
    · exact hh.recorded p' u hu
  · rw [hnum]; exact hh.counted
  · intro p' u hu
    rcases hold p' u hu with ⟨rfl, rfl⟩ | ⟨-, hu⟩
    · simpa using hh.waiting p' t ht
    · exact hh.waiting p' u hu
  · rw [hnum]; exact hh.inserted
  · rw [hnum]; exact hh.ran
  · intro p' u hu hr'
    rcases hold p' u hu with ⟨rfl, rfl⟩ | ⟨hne, hu⟩
    · exact absurd hr' hrepeat
    · simpa [hne] using hh.runs p' u hu hr'
  · intro p' u hu hr' hd
    rcases hold p' u hu with ⟨rfl, rfl⟩ | ⟨hne, hu⟩
    · exact absurd hr' hrepeat
    · simpa [hne] using hh.dues p' u hu hr' hd
  · exact fun c hc hdead hr' => hh.dead c hc (hlive _ hdead) hr'
  · intro f hf
    change f ∈ q'.freed at hf
    rw [hfreed] at hf
    obtain ⟨hin, hle, hgone⟩ := hh.freed f hf
    refine ⟨hin, by rw [hnum]; exact hle, fun p' u hu => ?_⟩
    rcases hold p' u hu with ⟨rfl, rfl⟩ | ⟨-, hu⟩
    · simpa using hgone p' t ht
    · exact hgone p' u hu
  · rw [hfreed]; exact hh.freedOnce

/-- The loop of `reset` puts back or frees one timer after the other. -/
theorem reset_turns {es : List Entry} (now : Timestamp)
    (hb : s.queue.Books (es.map Entry.timer ++ loose)) (hh : History s (es.map Entry.timer) []) :
    ∃ q', es.foldlM (fun q e => q.resetOne now e) s.queue = .ok q' ∧ q'.Books loose ∧
      History { s with queue := q' } [] [] := by
  induction es generalizing s with
  | nil => exact ⟨s.queue, rfl, hb, hh⟩
  | cons e es ih =>
    obtain ⟨t, ht⟩ := hb.live e.timer List.mem_cons_self
    have hfresh : e.timer ∉ es.map Entry.timer := fun h =>
      (List.nodup_cons.mp hb.nodup).1 (List.mem_append_left _ h)
    rw [List.map_cons, List.cons_append] at hb
    rcases hb.resetOne (w := e.expiration) ht now with
      ⟨hr, -, q₁, hq₁, hstep, hbooks⟩ | ⟨hstep, hbooks⟩
    · subst hq₁
      have hh' := History.restart hh ht hr now
        (TimerQueue.enter { s.queue with heap := _ } e.timer (t.restart now)) rfl rfl rfl
      obtain ⟨q', hfold, hq'⟩ := ih (s := { s with queue := _ }) hbooks hh'
      refine ⟨q', ?_, hq'⟩
      rw [List.foldlM_cons, hstep, ok_bind]
      exact hfold
    · have hh' := History.kill hh hb ht (.inl List.mem_cons_self) (es.map Entry.timer)
        (fun p' hne => by simp [hne]) (s.queue.release e.timer t false) false rfl rfl rfl
      obtain ⟨q', hfold, hq'⟩ := ih (s := { s with queue := _ }) hbooks hh'
      refine ⟨q', ?_, hq'⟩
      rw [List.foldlM_cons, hstep, ok_bind]
      exact hfold

theorem endRead_turns {es : List Entry} (now : Timestamp)
    (hb : s.queue.Books (es.map Entry.timer ++ loose)) (hh : History s (es.map Entry.timer) []) :
    ∃ q', s.queue.endRead es now = .ok q' ∧ q'.Books loose ∧
      History { s with queue := q' } [] [] := by
  obtain ⟨q', hfold, hbooks, hhist⟩ := reset_turns now
    (s := { s with queue := { s.queue with callingExpiredTimers := false } })
    (hb.congr rfl rfl rfl rfl) { hh with }
  obtain ⟨w, hw⟩ := hbooks.nextExpire
  simp only [TimerQueue.endRead, TimerQueue.reset, hfold, hw, ok_bind]
  split
  · exact ⟨_, rfl, hbooks.congr rfl rfl rfl rfl, { hhist with }⟩
  · exact ⟨_, rfl, hbooks, hhist⟩

def ranTimers (s : TimerRun) : List Addr :=
  match s.expiry with
  | some b => b.ran.map Entry.timer
  | none => []

def restTimers (s : TimerRun) : List Addr :=
  match s.expiry with
  | some b => b.rest.map Entry.timer
  | none => []

/-- The invariant of whole runs: the timers outside the sets are those of the batch and
those that wait for their insertion. -/
structure Sound (s : TimerRun) : Prop where
  books : s.queue.Books (s.ranTimers ++ s.restTimers ++ s.waiting)
  history : History s s.ranTimers s.restTimers

theorem initial_sound : Sound initial := ⟨TimerQueue.initial_books, initial_history⟩

theorem Sound.newTimer (hs : Sound s) (hp : s.queue.heap p = none) (hlt : p < uintptrMax)
    (when : Timestamp) (interval : Int) (repeats : Bool) :
    Sound (s.addTimer p when interval repeats) := by
  have hdead : p ∉ s.ranTimers ++ s.restTimers ++ s.waiting := fun h => by
    obtain ⟨t, ht⟩ := hs.books.live p h
    rw [hp] at ht
    exact nomatch ht
  simp only [List.mem_append, not_or] at hdead
  obtain ⟨⟨hcalled, -⟩, -⟩ := hdead
  refine ⟨(hs.books.newTimer hp hlt when interval repeats).perm ?_,
    hs.history.newTimer hp hcalled when interval repeats⟩
  have hperm := (List.perm_append_singleton p (s.ranTimers ++ s.restTimers ++ s.waiting)).symm
  rw [List.append_assoc _ s.waiting] at hperm
  exact hperm

theorem Sound.addTimerInLoop (hs : Sound s) (hp : p ∈ s.waiting) :
    ∃ s', s.addTimerInLoop p = .ok s' ∧ Sound s' := by
  have hmem : p ∈ s.ranTimers ++ s.restTimers ++ s.waiting := List.mem_append_right _ hp
  obtain ⟨t, ht⟩ := hs.books.live p hmem
  have hperm : (s.ranTimers ++ s.restTimers ++ s.waiting).Perm
      (p :: (s.ranTimers ++ s.restTimers ++ s.waiting.erase p)) :=
    ((List.perm_cons_erase hp).append_left _).trans List.perm_middle
  obtain ⟨fd, -, hadd, hbooks⟩ := (hs.books.perm hperm).addTimerInLoop ht
  have hderef : ({ s.queue.enter p t with timerfd := fd } : TimerQueue).deref p = .ok t :=
    TimerQueue.deref_of_live ht
  refine ⟨_, by simp only [TimerRun.addTimerInLoop, hadd, ok_bind, hderef]; rfl, hbooks, ?_⟩
  exact hs.history.addTimerInLoop hs.books (List.nodup_append'.mp hs.books.nodup).2.1 ht fd

theorem Sound.cancelInLoop (hs : Sound s) (id : TimerId) :
    ∃ s', s.cancelInLoop id = .ok s' ∧ Sound s' := by
  have hnoted : History { s with cancelled := s.cancelled ++ [id] } s.ranTimers s.restTimers :=
    { hs.history with
      dead := fun c hc hdead hr => (hs.history.dead c hc hdead hr).imp_right fun h =>
        ⟨h.1, List.mem_append_left _ h.2⟩ }
  rcases hs.books.cancelInLoop id with ⟨t, ht, hn, hout, hcancel, hbooks⟩ | ⟨hnone, hcancel⟩
  · refine ⟨_, by simp only [TimerRun.cancelInLoop, hcancel, ok_bind]; rfl, hbooks, ?_⟩
    have hid : id = ⟨id.timer, t.sequence⟩ := by rw [hn]
    exact hnoted.kill hs.books ht (.inr (by simp [← hid])) _ (fun _ _ => Iff.rfl) _ true rfl rfl rfl
  · refine ⟨_, by simp only [TimerRun.cancelInLoop, hcancel, ok_bind]; rfl, ?_, ?_⟩
    · split
      · exact hs.books.congr rfl rfl rfl rfl
      · exact hs.books
    · split
      · exact { hnoted with }
      · exact hnoted

theorem Sound.beginRead (hs : Sound s) (hidle : s.expiry = none) :
    ∃ s', s.beginRead = .ok s' ∧ Sound s' := by
  obtain ⟨hb, hh⟩ := hs
  simp only [ranTimers, restTimers, hidle, List.nil_append] at hb hh
  obtain ⟨a, hbegin, hbooks⟩ := hb.beginRead
  refine ⟨_, by simp only [TimerRun.beginRead, hbegin, ok_bind]; rfl, ?_, ?_⟩
  · simpa [ranTimers, restTimers] using hbooks
  · refine hh.beginRead hb _ ?_ ?_ ?_ _
    all_goals rfl

theorem Sound.runNext {b : Expiry} {e : Entry} {rest : List Entry} (hs : Sound s)
    (hb : s.expiry = some b) (hrest : b.rest = e :: rest) :
    ∃ s', s.runNext b e rest = .ok s' ∧ Sound s' := by
  obtain ⟨hbooks, hh⟩ := hs
  simp only [ranTimers, restTimers, hb, hrest, List.map_cons] at hbooks hh
  obtain ⟨t, ht⟩ := hbooks.live e.timer (by simp)
  have hfresh : e.timer ∉ b.ran.map Entry.timer := by
    have hnodup := hbooks.nodup
    rw [List.append_assoc] at hnodup
    intro h
    exact (List.nodup_append'.mp hnodup).2.2 h (by simp)
  refine ⟨_, by simp only [TimerRun.runNext, TimerQueue.deref_of_live ht, ok_bind]; rfl, ?_, ?_⟩
  · simpa [ranTimers, restTimers] using hbooks
  · have := hh.runNext hbooks ht hfresh { b with ran := b.ran ++ [e], rest := rest }
    simpa [ranTimers, restTimers] using this

theorem Sound.endRead {b : Expiry} (hs : Sound s) (hb : s.expiry = some b) (hrest : b.rest = []) :
    ∃ s', s.endRead b = .ok s' ∧ Sound s' := by
  obtain ⟨hbooks, hh⟩ := hs
  simp only [ranTimers, restTimers, hb, hrest, List.map_nil, List.append_nil] at hbooks hh
  have hexp : b.expired = b.ran := by rw [Expiry.expired, hrest, List.append_nil]
  obtain ⟨q', hend, hbooks', hh'⟩ := endRead_turns b.now hbooks hh
  refine ⟨_, by simp only [TimerRun.endRead, hexp, hend, ok_bind]; rfl, ?_, ?_⟩
  · exact hbooks'
  · exact { hh' with }

theorem Sound.step (hs : Sound s) {e : Event} (he : machine.enabled s e) :
    ∃ s', machine.step s e = .ok s' ∧ Sound s' := by
  cases e with
  | newTimer timer when interval repeats =>
    exact ⟨_, rfl, hs.newTimer he.1 he.2 when interval repeats⟩
  | addTimerInLoop timer => exact hs.addTimerInLoop he
  | cancelInLoop timerId => exact hs.cancelInLoop timerId
  | setClock now =>
    exact ⟨_, rfl, hs.books.congr rfl rfl rfl rfl, { hs.history with }⟩
  | timerfdExpires => exact ⟨_, rfl, hs.books.congr rfl rfl rfl rfl, { hs.history with }⟩
  | beginRead => exact hs.beginRead he
  | runNext =>
    obtain ⟨b, hb, hne⟩ := he
    obtain ⟨e, rest, hrest⟩ := List.exists_cons_of_ne_nil hne
    simp only [machine, TimerRun.step, Option.mem_def.mp hb, hrest]
    exact hs.runNext hb hrest
  | endRead =>
    obtain ⟨b, hb, hrest⟩ := he
    simp only [machine, TimerRun.step, Option.mem_def.mp hb]
    exact hs.endRead hb hrest

/-- What the two sets and the objects look like, and what has happened to every timer,
whenever control is outside the queue's functions. -/
structure Bookkept (s : TimerRun) : Prop where
  same : ∀ p, (∃ e ∈ s.queue.timers, e.timer = p) ↔ ∃ a ∈ s.queue.activeTimers, a.timer = p
  keyed : ∀ e ∈ s.queue.timers, ∃ t, s.queue.heap e.timer = some t ∧ t.expiration = e.expiration
  numbered : ∀ a ∈ s.queue.activeTimers, ∃ t,
    s.queue.heap a.timer = some t ∧ t.sequence = a.sequence
  freedOnce : (s.queue.freed.map Freed.sequence).Nodup
  freedLate : ∀ f ∈ s.queue.freed, f.inTimers = false
  gone : ∀ f ∈ s.queue.freed, ∀ a ∈ s.queue.activeTimers, a.sequence ≠ f.sequence
  once : ∀ c ∈ s.created, c.repeats = false → s.ran.count c.id.sequence ≤ 1
  onTime : s.expiry = none → ∀ c ∈ s.created, c.repeats = false → c.id ∉ s.cancelled →
    c.id.sequence ∈ s.due → s.ran.count c.id.sequence = 1

theorem Sound.bookkept (hs : Sound s) : Bookkept s := by
  obtain ⟨hb, hh⟩ := hs
  have hnumbered : ∀ a ∈ s.queue.activeTimers, ∃ t,
      s.queue.heap a.timer = some t ∧ t.sequence = a.sequence := by
    intro a ha
    obtain ⟨t, ht, hn, -⟩ := (hb.active a.timer a.sequence).mp ha
    exact ⟨t, ht, hn⟩
  -- a one-shot timer is either dead or still has its object, recorded as one-shot
  have hone : ∀ c ∈ s.created, c.repeats = false →
      (∃ p t, s.queue.heap p = some t ∧ t.sequence = c.id.sequence ∧ t.repeats = false) ∨
        ∀ p t, s.queue.heap p = some t → t.sequence ≠ c.id.sequence := by
    intro c hc hr
    by_contra hnone
    obtain ⟨hnot, hlive⟩ := not_or.mp hnone
    push Not at hlive
    obtain ⟨p, t, ht, hn⟩ := hlive
    obtain ⟨c', hc', hid, hrep, -⟩ := hh.recorded p t ht
    have hsame : c' = c := List.inj_on_of_nodup_map hh.keys hc' hc (by rw [hid, hn])
    subst hsame
    exact hnot ⟨p, t, ht, hn, by rw [← hrep, hr]⟩
  refine ⟨fun p => ⟨?_, ?_⟩, ?_, hnumbered, hh.freedOnce, fun f hf => (hh.freed f hf).1, ?_, ?_,
    ?_⟩
  · rintro ⟨e, he, rfl⟩
    obtain ⟨t, ht, -, hout⟩ := (hb.timers e.expiration e.timer).mp he
    exact ⟨_, (hb.active e.timer t.sequence).mpr ⟨t, ht, rfl, hout⟩, rfl⟩
  · rintro ⟨a, ha, rfl⟩
    obtain ⟨t, ht, -, hout⟩ := (hb.active a.timer a.sequence).mp ha
    exact ⟨_, (hb.timers t.expiration a.timer).mpr ⟨t, ht, rfl, hout⟩, rfl⟩
  · intro e he
    obtain ⟨t, ht, hw, -⟩ := (hb.timers e.expiration e.timer).mp he
    exact ⟨t, ht, hw⟩
  · intro f hf a ha
    obtain ⟨t, ht, hn⟩ := hnumbered a ha
    rw [← hn]
    exact (hh.freed f hf).2.2 a.timer t ht
  · intro c hc hr
    rcases hone c hc hr with ⟨p, t, ht, hn, hr'⟩ | hdead
    · rw [← hn, hh.runs p t ht hr']
      split <;> omega
    · rcases hh.dead c hc hdead hr with h | h <;> omega
  · intro hidle c hc hr hkept hdue
    rcases hone c hc hr with ⟨p, t, ht, hn, hr'⟩ | hdead
    · have := hh.dues p t ht hr' (hn ▸ hdue)
      simp [ranTimers, restTimers, hidle] at this
    · exact (hh.dead c hc hdead hr).resolve_right fun h => hkept h.2

/-- All timers but number `n` are as they were. -/
def OthersKept (n : Nat) (q q' : TimerQueue) : Prop :=
  ∀ p t, q.heap p = some t → t.sequence ≠ n → q'.heap p = some t ∧
    (∀ w, ⟨w, p⟩ ∈ q'.timers ↔ ⟨w, p⟩ ∈ q.timers) ∧
    (∀ m, ⟨p, m⟩ ∈ q'.activeTimers ↔ ⟨p, m⟩ ∈ q.activeTimers) ∧
    (⟨p, t.sequence⟩ ∈ q'.cancelingTimers ↔ ⟨p, t.sequence⟩ ∈ q.cancelingTimers)

theorem Sound.cancel_others (hs : Sound s) (id : TimerId) :
    Yields (fun s' => OthersKept id.sequence s.queue s'.queue) (fun _ => False)
      (s.cancelInLoop id) := by
  rcases hs.books.cancelInLoop id with ⟨t, ht, hn, hout, hcancel, hbooks⟩ | ⟨hnone, hcancel⟩
  · simp only [TimerRun.cancelInLoop, hcancel, ok_bind, yields_ok]
    intro p u hu hne
    have hp : p ≠ id.timer := by
      rintro rfl
      rw [ht, Option.some.injEq] at hu
      exact hne (by rw [← hu, hn])
    simp [TimerQueue.release, TimerQueue.leave, hp, hu]
  · simp only [TimerRun.cancelInLoop, hcancel, ok_bind, yields_ok]
    intro p u hu hne
    split
    · simp [hu, hne]
    · exact ⟨hu, fun _ => Iff.rfl, fun _ => Iff.rfl, Iff.rfl⟩

/-- Every run of the queue keeps its books: no assertion fails, no freed timer is touched, and
an id whose timer is gone cancels no other timer. -/
theorem timers_bookkept {es : List Event} (hl : machine.Legal (fun _ _ => True) initial es) :
    Yields (fun s => Bookkept s ∧ ∀ id ∈ s.created.map Created.id,
        Yields (fun s' => OthersKept id.sequence s.queue s'.queue) (fun _ => False)
          (machine.step s (.cancelInLoop id)))
      (fun _ => False) (machine.run initial es) := by
  have hsound : Yields Sound (fun _ => False) (machine.run initial es) := by
    refine Machine.run_keeps (fun s e hs he _ => ?_) initial_sound hl
    obtain ⟨s', hstep, hs'⟩ := hs.step he
    rw [hstep]
    exact hs'
  exact hsound.mono fun s hs => ⟨hs.bookkept, fun id _ => hs.cancel_others id⟩

instance : ∀ s e, Decidable (machine.enabled s e)
  | s, .newTimer timer _ _ _ =>
    inferInstanceAs (Decidable (s.queue.heap timer = none ∧ timer < uintptrMax))
  | s, .addTimerInLoop timer => inferInstanceAs (Decidable (timer ∈ s.waiting))
  | s, .cancelInLoop timerId => inferInstanceAs (Decidable (timerId ∈ s.created.map Created.id))
  | _, .setClock _ => isTrue trivial
  | _, .timerfdExpires => isTrue trivial
  | s, .beginRead => decidable_of_iff (s.expiry.isNone = true) Option.isNone_iff_eq_none
  | s, .runNext => inferInstanceAs (Decidable (∃ b ∈ s.expiry, b.rest ≠ []))
  | s, .endRead => inferInstanceAs (Decidable (∃ b ∈ s.expiry, b.rest = []))

/-- A one-shot and a repeating timer expire together; the first callback cancels the second,
whose address a third timer has taken when the stale id is cancelled once more. -/
def sampleRun : List Event :=
  [.newTimer 16 100 0 false, .newTimer 32 100 50 true, .addTimerInLoop 16, .addTimerInLoop 32,
    .setClock 120, .beginRead, .runNext, .cancelInLoop ⟨32, 2⟩, .runNext, .endRead,
    .newTimer 32 300 0 false, .addTimerInLoop 32, .cancelInLoop ⟨32, 2⟩]

theorem timers_bookkept_sample :
    Yields (fun s => Bookkept s ∧ ∀ id ∈ s.created.map Created.id,
        Yields (fun s' => OthersKept id.sequence s.queue s'.queue) (fun _ => False)
          (machine.step s (.cancelInLoop id)))
      (fun _ => False) (machine.run initial sampleRun) :=
  timers_bookkept (by decide +kernel)

/-- `cancelInLoop` deletes a timer while `activeTimers_` still lists it. -/
theorem freed_while_active : ¬ ∀ es, machine.Legal (fun _ _ => True) initial es →
    Yields (fun s => ∀ f ∈ s.queue.freed, f.inTimers = false ∧ f.inActiveTimers = false)
      (fun _ => False) (machine.run initial es) := by
  intro h
  have hlegal : machine.Legal (fun _ _ => True) initial
      [.newTimer 16 100 0 false, .addTimerInLoop 16, .cancelInLoop ⟨16, 1⟩] := by
    decide +kernel
  have hfreed : ((machine.run initial [.newTimer 16 100 0 false, .addTimerInLoop 16,
      .cancelInLoop ⟨16, 1⟩]).toOption.map fun s => s.queue.freed) =
      some [⟨1, false, true⟩] := by
    decide +kernel
  have hall := h _ hlegal
  cases hr : machine.run initial [.newTimer 16 100 0 false, .addTimerInLoop 16,
      .cancelInLoop ⟨16, 1⟩] with
  | error f => simp [hr, Except.toOption] at hfreed
  | ok s =>
    rw [hr] at hall
    simp only [hr, Except.toOption, Option.map_some, Option.some.injEq] at hfreed
    have := hall ⟨1, false, true⟩ (by simp [hfreed])
    exact absurd this.2 (by simp)

end TimerRun

end Muduo.Net
