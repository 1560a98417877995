import Muduo.Base.ThreadPool

namespace Muduo.Base.ThreadPool
open Muduo.Lib Muduo.Net

variable {T : Type} {s : ThreadPool T}

/-- The free slots of a bounded queue. -/
def free (s : ThreadPool T) : Nat := s.maxQueueSize - s.queue.length

/-- The tasks are handed on in order, and where a thread waits a notification is pending for
each of the `tasks` or `slots`. -/
structure Told (s : ThreadPool T) (tasks slots : Nat) : Prop where
  bounded : 0 < s.maxQueueSize → s.queue.length ≤ s.maxQueueSize
  in_order : s.pushed = s.taken.map Prod.snd ++ s.queue
  workers : s.notEmpty.Told tasks
  producers : 0 < s.maxQueueSize → s.notFull.Told slots
  unbounded : s.maxQueueSize = 0 → s.notFull.waiting = []

/-- The tasks in the queue and its free slots are all told of. -/
def Sound (s : ThreadPool T) : Prop := s.Told s.queue.length s.free

theorem start_sound (maxQueueSize numThreads : Nat) : (start T maxQueueSize numThreads).Sound where
  bounded _ := Nat.zero_le _
  in_order := rfl
  workers := Condition.told_idle rfl
  producers _ := Condition.told_idle rfl
  unbounded _ := rfl

theorem Sound.setThread (h : s.Sound) (w : Nat) (at' : Worker T) : (s.setThread w at').Sound :=
  ⟨h.bounded, h.in_order, h.workers, h.producers, h.unbounded⟩

theorem Sound.stop (h : s.Sound) : s.stop.Sound :=
  ⟨h.bounded, h.in_order, Condition.told_notifyAll _, h.producers, h.unbounded⟩

/-- A task is queued, all threads wait, and no notification is on its way to one. -/
def TaskForgotten (s : ThreadPool T) : Prop :=
  s.queue ≠ [] ∧ s.notEmpty.notified = [] ∧ ∀ w < s.threads.length, w ∈ s.notEmpty.waiting

/-- A slot is free, a producer waits, and no notification is on its way to one. -/
def SlotForgotten (s : ThreadPool T) : Prop :=
  ¬s.isFull ∧ s.notFull.notified = [] ∧ s.notFull.waiting ≠ []

/-- No notification of a pool with threads is lost. -/
structure NothingLost (s : ThreadPool T) : Prop where
  bounded : 0 < s.maxQueueSize → s.queue.length ≤ s.maxQueueSize
  in_order : s.pushed = s.taken.map Prod.snd ++ s.queue
  task_told : ¬s.TaskForgotten
  slot_told : ¬s.SlotForgotten

theorem Sound.all_told (h : s.Sound) (hpos : 0 < s.threads.length) : s.NothingLost where
  bounded := h.bounded
  in_order := h.in_order
  task_told := by
    rintro ⟨hq, hnone, hall⟩
    have hwait : s.notEmpty.waiting ≠ [] := List.ne_nil_of_mem (hall 0 hpos)
    exact h.workers.pending (List.length_pos_iff.mpr hq) hwait hnone
  slot_told := by
    rintro ⟨hroom, hnone, hwait⟩
    rcases Nat.eq_zero_or_pos s.maxQueueSize with hmax | hmax
    · exact hwait (h.unbounded hmax)
    · have hfree : 0 < s.free := by
        have hlt : ¬s.maxQueueSize ≤ s.queue.length := fun hle => hroom ⟨hmax, hle⟩
        simp only [free]
        omega
      exact (h.producers hmax).pending hfree hwait hnone

/-- Whoever comes to push may use up one of the notifications. -/
theorem Told.push (h : s.Told s.queue.length (s.free - 1)) {wake : Option Nat}
    (hm : s.notEmpty.MayWake wake) (call : Call T) :
    ∃ t, s.push call wake = .ok t ∧ t.Sound := by
  by_cases hfull : s.isFull
  · refine ⟨_, push_full hfull wake, h.bounded, h.in_order, h.workers,
      fun _ => ?_, fun hmax => absurd hfull.1 (Nat.not_lt.mpr (Nat.le_of_eq hmax))⟩
    have hzero : s.free = 0 := Nat.sub_eq_zero_of_le hfull.2
    change (s.notFull.wait call).Told s.free
    rw [hzero]
    exact Condition.told_zero _
  · refine ⟨_, push_room hfull wake, ?_, ?_, ?_, ?_, h.unbounded⟩
    · intro hmax
      have hroom : ¬s.maxQueueSize ≤ s.queue.length := fun hle => hfull ⟨hmax, hle⟩
      simp only [List.length_append, List.length_singleton]
      omega
    · simp only [h.in_order, List.append_assoc]
    · simp only [List.length_append, List.length_singleton]
      exact h.workers.notify hm
    · intro hmax
      refine (h.producers hmax).mono ?_
      simp only [free, List.length_append, List.length_singleton]
      omega

variable [DecidableEq T]

/-- Whoever comes to take may use up one of the notifications. -/
theorem Told.take (h : s.Told (s.queue.length - 1) s.free) {wake : Option (Call T)}
    (hm : s.notFull.MayWake wake) (w : Nat) : (s.take w wake).Sound := by
  cases hq : s.queue with
  | nil =>
    have hnone : ∀ c : Condition Nat, c.Told s.queue.length := by
      rw [hq]
      exact Condition.told_zero
    by_cases hr : s.running
    · rw [take_waits hq hr]
      have hsound : Sound { s with notEmpty := s.notEmpty.wait w } :=
        ⟨h.bounded, h.in_order, hnone _, h.producers, h.unbounded⟩
      exact hsound.setThread _ _
    · rw [take_nothing hq hr]
      have hsound : s.Sound := ⟨h.bounded, h.in_order, hnone _, h.producers, h.unbounded⟩
      exact hsound.setThread _ _
  | cons task queue =>
    have hlen : s.queue.length = queue.length + 1 := by rw [hq, List.length_cons]
    rw [take_task hq]
    refine Sound.setThread ⟨?_, ?_, ?_, ?_, ?_⟩ _ _
    · intro hmax
      have := h.bounded hmax
      simp only
      omega
    · simp only [h.in_order, hq, List.map_append, List.map_cons, List.map_nil, List.append_assoc,
        List.cons_append, List.nil_append]
    · exact h.workers.mono (by simp only; omega)
    · intro hmax
      simp only at hmax
      simp only [if_pos hmax]
      refine ((h.producers hmax).notify hm).mono ?_
      have := h.bounded hmax
      simp only [free] at *
      omega
    · intro hmax
      simp only [show ¬0 < s.maxQueueSize by simp only at hmax; omega, if_false]
      exact h.unbounded hmax

theorem Sound.step (h : s.Sound) {e : Event T} (he : (machine T).enabled s e) :
    ∃ t, (machine T).step s e = .ok t ∧ t.Sound := by
  have hslots : ∀ hmax : 0 < s.maxQueueSize, s.notFull.Told (s.free - 1) :=
    fun hmax => (h.producers hmax).mono (Nat.sub_le _ _)
  have htasks : s.notEmpty.Told (s.queue.length - 1) := h.workers.mono (Nat.sub_le _ _)
  cases e with
  | init w => exact ⟨_, rfl, h.setThread _ _⟩
  | test w => exact ⟨_, rfl, h.setThread _ _⟩
  | take w wake =>
    exact ⟨_, rfl, Told.take ⟨h.bounded, h.in_order, htasks, h.producers, h.unbounded⟩
      he.2 w⟩
  | retake w wake =>
    have hresumed : Told { s with notEmpty := s.notEmpty.resume w } (s.queue.length - 1) s.free :=
      ⟨h.bounded, h.in_order, h.workers.resume, h.producers, h.unbounded⟩
    exact ⟨_, rfl, hresumed.take he.2 w⟩
  | finish w => exact ⟨_, rfl, h.setThread _ _⟩
  | run call wake =>
    by_cases hnone : s.threads = []
    · exact ⟨s, if_pos hnone, h⟩
    · obtain ⟨t, ht, hsound⟩ :=
        Told.push ⟨h.bounded, h.in_order, h.workers, hslots, h.unbounded⟩ he.2 call
      exact ⟨t, (if_neg hnone).trans ht, hsound⟩
  | rerun call wake =>
    have hresumed : Told { s with notFull := s.notFull.resume call } s.queue.length (s.free - 1) :=
      ⟨h.bounded, h.in_order, h.workers, fun hmax => (h.producers hmax).resume, by
        simpa using h.unbounded⟩
    exact hresumed.push he.2 call
  | rouseWorker w => exact ⟨_, rfl, h.bounded, h.in_order, h.workers.rouse, h.producers,
    h.unbounded⟩
  | rouseProducer call =>
    refine ⟨_, rfl, h.bounded, h.in_order, h.workers, fun hmax => (h.producers hmax).rouse, ?_⟩
    intro hmax
    simp only [Condition.rouse, h.unbounded hmax, List.erase_nil]
  | stop => exact ⟨_, rfl, h.stop⟩

/-- Whatever the threads do, and in whatever order, no task and no notification is lost. -/
theorem nothing_lost {maxQueueSize numThreads : Nat} (hn : 0 < numThreads) {es : List (Event T)}
    (hl : (machine T).Legal (fun _ _ => True) (start T maxQueueSize numThreads) es) :
    Yields NothingLost (fun _ => False) ((machine T).run (start T maxQueueSize numThreads) es) := by
  have hrun := Machine.run_keeps (m := machine T) (I := fun s => s.Sound ∧ 0 < s.threads.length)
    (b := fun _ => False) (c := fun _ _ => True) (fun s e hi he _ => ?_)
    ⟨start_sound maxQueueSize numThreads, by simpa [start] using hn⟩ hl
  · exact hrun.mono fun t ht => ht.1.all_told ht.2
  · obtain ⟨t, ht, hsound⟩ := hi.1.step he
    rw [ht]
    exact ⟨hsound, by rw [step_length ht]; exact hi.2⟩

/-- One thread and one slot: the second producer waits, wakes for no reason, is notified, and
is overtaken by the third. -/
def busyHour : List (Event Nat) :=
  [.init 0, .test 0, .take 0 none, .run ⟨7, some 70⟩ (some 0), .run ⟨8, some 80⟩ none,
    .rouseProducer ⟨8, some 80⟩, .rerun ⟨8, some 80⟩ none, .retake 0 (some ⟨8, some 80⟩),
    .run ⟨9, some 90⟩ none, .rerun ⟨8, some 80⟩ none, .finish 0, .test 0,
    .take 0 (some ⟨8, some 80⟩)]

theorem nothing_lost_sample :
    Yields NothingLost (fun _ => False) ((machine Nat).run (start Nat 1 1) busyHour) :=
  nothing_lost (by decide) (by decide)

end Muduo.Base.ThreadPool
