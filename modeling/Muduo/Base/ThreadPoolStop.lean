import Muduo.Base.ThreadPoolWaits

namespace Muduo.Base

/-- The thread is in `take()`, where it takes a task also of a stopped pool. -/
def Worker.isTaking {T : Type} : Worker T → Bool
  | .taking | .waiting => true
  | _ => false

namespace ThreadPool
open Muduo.Lib Muduo.Net

variable {T : Type} {s : ThreadPool T}

/-- The pool is stopped, and its threads have left their loops. -/
def Deserted (s : ThreadPool T) : Prop := s.running = false ∧ ∀ w ∈ s.threads, w = .finished

/-- A producer waits, with no notification on its way, and nobody left to send one. -/
def Stranded (s : ThreadPool T) : Prop :=
  s.Deserted ∧ s.notFull.waiting ≠ [] ∧ s.notFull.notified = []

/-- The threads in `take()`. -/
def taking (s : ThreadPool T) : Nat := s.threads.countP Worker.isTaking

def producersWaiting (s : ThreadPool T) : Nat := s.notFull.waiting.length

/-- `stop` is called while no more producers wait than there are threads in `take()`. After that
fewer must wait when one more producer finds the queue full, or a thread finds it empty. -/
def Manned [DecidableEq T] (s : ThreadPool T) : Event T → Prop
  | .stop => s.producersWaiting ≤ s.taking
  | .run _ _ | .rerun _ _ => s.running = false → s.isFull → s.producersWaiting < s.taking
  | .take _ _ | .retake _ _ => s.running = false → s.queue = [] → s.producersWaiting < s.taking
  | _ => True

def Event.spurious : Event T → Bool
  | .rouseWorker _ | .rouseProducer _ => true
  | _ => false

/-- Every producer that waits on a stopped pool has a thread to notify it. -/
def Guarded (s : ThreadPool T) : Prop := s.running = false → s.producersWaiting ≤ s.taking

/-- What holds of every bounded pool. -/
structure Bounded (s : ThreadPool T) : Prop where
  bounded : 0 < s.maxQueueSize
  waits : ∀ w ∈ s.notEmpty.inside, s.threads[w]? = some .waiting
  once : s.notEmpty.inside.Nodup
  unmanned : s.threads = [] → s.queue = [] ∧ s.notFull.inside = []

theorem start_bounded {maxQueueSize : Nat} (hmax : 0 < maxQueueSize) (numThreads : Nat) :
    (start T maxQueueSize numThreads).Bounded where
  bounded := hmax
  waits := nofun
  once := List.nodup_nil
  unmanned _ := ⟨rfl, rfl⟩

theorem start_guarded (maxQueueSize numThreads : Nat) :
    (start T maxQueueSize numThreads).Guarded := nofun

theorem taking_setThread {w : Nat} {a b : Worker T} (hw : s.threads[w]? = some a) :
    (s.setThread w b).taking + (if a.isTaking then 1 else 0) =
      s.taking + if b.isTaking then 1 else 0 := by
  obtain ⟨hlt, rfl⟩ := List.getElem?_eq_some_iff.mp hw
  have hle : (if s.threads[w].isTaking then 1 else 0) ≤ s.threads.countP Worker.isTaking :=
    List.boole_getElem_le_countP hlt
  simp only [taking, setThread, List.countP_set hlt]
  omega

theorem Deserted.taking_zero (h : s.Deserted) : s.taking = 0 := by
  rw [taking, List.countP_eq_zero]
  intro w hw
  rw [h.2 w hw]
  exact Bool.false_ne_true

theorem Guarded.not_stranded (h : s.Guarded) : ¬s.Stranded := by
  intro hs
  have hle := h hs.1.1
  rw [hs.1.taking_zero] at hle
  exact hs.2.1 (List.length_eq_zero_iff.mp (Nat.le_zero.mp hle))

/-- At the end, where no notification is pending either, nobody is stranded for no other
reason. -/
theorem Deserted.guarded_iff (h : s.Deserted) (hnone : s.notFull.notified = []) :
    s.Guarded ↔ ¬s.Stranded := by
  refine ⟨Guarded.not_stranded, fun hs _ => ?_⟩
  have hwait : s.notFull.waiting = [] := by
    by_contra hwait
    exact hs ⟨h, hwait, hnone⟩
  rw [producersWaiting, hwait]
  exact Nat.zero_le _

theorem Bounded.setThread (h : s.Bounded) {w : Nat} (hw : w ∉ s.notEmpty.inside)
    (at' : Worker T) : (s.setThread w at').Bounded where
  bounded := h.bounded
  waits := by
    intro v hv
    have hne : w ≠ v := fun he => hw (he ▸ hv)
    rw [← h.waits v hv]
    exact List.getElem?_set_ne hne
  once := h.once
  unmanned := by
    intro hnone
    apply h.unmanned
    rw [← List.length_eq_zero_iff, ← setThread_length s w at', hnone, List.length_nil]

theorem Bounded.outside (h : s.Bounded) {w : Nat} {at' : Worker T}
    (hw : s.threads[w]? = some at') (hat : at' ≠ .waiting) : w ∉ s.notEmpty.inside := by
  intro hin
  exact hat (Option.some.inj (hw.symm.trans (h.waits w hin)))

theorem Bounded.manned (h : s.Bounded) {call : Call T} (hc : call ∈ s.notFull.inside) :
    s.threads ≠ [] := by
  intro hnone
  rw [(h.unmanned hnone).2] at hc
  cases hc

/-- A thread that was woken goes on, and is outside the wait. -/
theorem Bounded.resume (h : s.Bounded) {w : Nat} (hw : s.notEmpty.Woken w) :
    Bounded { s with notEmpty := s.notEmpty.resume w } ∧ w ∉ (s.notEmpty.resume w).inside := by
  have hnodup := (Condition.perm_resume hw).nodup_iff.mpr h.once
  obtain ⟨hout, honce⟩ := List.nodup_cons.mp hnodup
  exact ⟨⟨h.bounded, fun v hv => h.waits v (Condition.inside_resume hv), honce, h.unmanned⟩, hout⟩

theorem manned_of_getElem {w : Nat} {at' : Worker T} (hw : s.threads[w]? = some at') :
    s.threads ≠ [] := by
  obtain ⟨hlt, -⟩ := List.getElem?_eq_some_iff.mp hw
  exact List.ne_nil_of_length_pos (Nat.zero_lt_of_lt hlt)

theorem Bounded.push (h : s.Bounded) (hne : s.threads ≠ []) {t : ThreadPool T} {call : Call T}
    {wake : Option Nat} (hm : s.notEmpty.MayWake wake) (ht : s.push call wake = .ok t) :
    t.Bounded := by
  by_cases hfull : s.isFull
  · rw [push_full hfull] at ht
    cases ht
    exact ⟨h.bounded, h.waits, h.once, fun hnone => absurd hnone hne⟩
  · rw [push_room hfull] at ht
    cases ht
    exact ⟨h.bounded, fun w hw => h.waits w (Condition.inside_notify hm hw),
      (Condition.perm_notify hm).nodup_iff.mpr h.once, fun hnone => absurd hnone hne⟩

/-- A producer that finds the queue full needs one more thread. -/
theorem push_guarded {t : ThreadPool T} {call : Call T} {wake : Option Nat}
    (ht : s.push call wake = .ok t) :
    t.Guarded ↔
      s.Guarded ∧ (s.running = false → s.isFull → s.producersWaiting < s.taking) := by
  by_cases hfull : s.isFull
  · rw [push_full hfull] at ht
    cases ht
    have hlen : (s.notFull.wait call).waiting.length = s.producersWaiting + 1 := by
      rw [Condition.waiting_wait, List.length_append, List.length_singleton]
      rfl
    change (s.running = false → (s.notFull.wait call).waiting.length ≤ s.taking) ↔ _
    rw [hlen]
    constructor
    · intro h
      exact ⟨fun hr => Nat.le_of_succ_le (h hr), fun hr _ => h hr⟩
    · intro h hr
      exact h.2 hr hfull
  · rw [push_room hfull] at ht
    cases ht
    exact ⟨fun h => ⟨h, fun _ hf => absurd hf hfull⟩, And.left⟩

theorem guarded_setThread {w : Nat} {a b : Worker T} (hw : s.threads[w]? = some a)
    (hab : s.running = false → a.isTaking = b.isTaking) :
    (s.setThread w b).Guarded ↔ s.Guarded := by
  refine imp_congr_right fun hr => ?_
  have hcount := taking_setThread (b := b) hw
  rw [hab hr] at hcount
  change s.producersWaiting ≤ _ ↔ _
  omega

theorem isBusy_getElem {w : Nat} (h : s.threads[w]?.any Worker.isBusy = true) :
    ∃ task, s.threads[w]? = some (.busy task) := by
  cases hw : s.threads[w]? with
  | none => simp [hw] at h
  | some at' =>
    rw [hw] at h
    cases at' with
    | busy task => exact ⟨task, rfl⟩
    | starting | testing | taking | waiting | finished => cases h

variable [DecidableEq T]

theorem Bounded.take (h : s.Bounded) {w : Nat} {at' : Worker T} (hw : s.threads[w]? = some at')
    (hout : w ∉ s.notEmpty.inside) (wake : Option (Call T)) : (s.take w wake).Bounded := by
  have hne := manned_of_getElem hw
  cases hq : s.queue with
  | nil =>
    by_cases hr : s.running
    · rw [take_waits hq hr]
      obtain ⟨hlt, -⟩ := List.getElem?_eq_some_iff.mp hw
      refine ⟨h.bounded, ?_, ?_, fun hnone => ?_⟩
      · intro v hv
        rcases Condition.inside_wait.mp hv with hv | rfl
        · exact (h.setThread hout .waiting).waits v hv
        · exact List.getElem?_set_self hlt
      · exact (Condition.perm_wait _ w).nodup_iff.mpr (List.nodup_cons.mpr ⟨hout, h.once⟩)
      · exact (h.setThread hout .waiting).unmanned hnone
    · rw [take_nothing hq hr]
      exact h.setThread hout _
  | cons task queue =>
    rw [take_task hq]
    have htaken : Bounded { s with
        queue := queue
        notFull := if 0 < s.maxQueueSize then s.notFull.notify wake else s.notFull
        taken := s.taken ++ [(w, task)] } :=
      ⟨h.bounded, h.waits, h.once, fun hnone => absurd hnone hne⟩
    exact htaken.setThread hout _

/-- A thread that takes a task leaves `take()` and notifies a producer; one that finds the
queue empty only leaves. -/
theorem Bounded.take_guarded (h : s.Bounded) {w : Nat} {at' : Worker T}
    (hw : s.threads[w]? = some at') (hat : at'.isTaking = true) {wake : Option (Call T)}
    (hm : s.notFull.MayWake wake) :
    (s.take w wake).Guarded ↔
      s.Guarded ∧ (s.running = false → s.queue = [] → s.producersWaiting < s.taking) := by
  cases hq : s.queue with
  | nil =>
    by_cases hr : s.running
    · rw [take_waits hq hr]
      have hno : ¬s.running = false := by simp [hr]
      exact iff_of_true (fun hstop => absurd hstop hno)
        ⟨fun hstop => absurd hstop hno, fun hstop => absurd hstop hno⟩
    · have hstop : s.running = false := by simpa using hr
      rw [take_nothing hq hr]
      have hcount := taking_setThread (b := .testing) hw
      rw [if_pos hat] at hcount
      change _ + 1 = s.taking + 0 at hcount
      change (s.running = false → s.producersWaiting ≤ _) ↔
        (s.running = false → s.producersWaiting ≤ s.taking) ∧ _
      simp only [hstop, true_imp_iff]
      omega
  | cons task queue =>
    rw [take_task hq, if_pos h.bounded]
    have hlen := Condition.length_waiting_notify hm
    have hcount := taking_setThread (b := .given task) hw
    have hgiven : (Worker.given task).isTaking = false := by cases task <;> rfl
    rw [if_pos hat, hgiven, if_neg Bool.false_ne_true] at hcount
    change (s.running = false → (s.notFull.notify wake).waiting.length ≤
      (s.setThread w (.given task)).taking) ↔
        (s.running = false → s.producersWaiting ≤ s.taking) ∧ _
    rw [hlen]
    simp only [reduceCtorEq, false_imp_iff, imp_true_iff, and_true]
    change (_ → s.producersWaiting - 1 ≤ _) ↔ _
    refine imp_congr_right fun _ => ?_
    omega

theorem Bounded.step (h : s.Bounded) {e : Event T} (he : (machine T).enabled s e)
    {t : ThreadPool T} (ht : (machine T).step s e = .ok t) : t.Bounded := by
  cases e with
  | init w =>
    cases ht
    exact h.setThread (h.outside he nofun) _
  | finish w =>
    cases ht
    obtain ⟨task, hw⟩ := isBusy_getElem he
    exact h.setThread (h.outside hw nofun) _
  | test w =>
    cases ht
    exact h.setThread (h.outside he nofun) _
  | take w wake =>
    cases ht
    exact h.take he.1 (h.outside he.1 nofun) wake
  | retake w wake =>
    cases ht
    obtain ⟨hresumed, hout⟩ := h.resume he.1
    exact hresumed.take (h.waits w he.1.inside) hout wake
  | run call wake =>
    by_cases hnone : s.threads = []
    · cases (if_pos hnone).symm.trans ht
      exact h
    · exact h.push hnone he.2 ((if_neg hnone).symm.trans ht)
  | rerun call wake =>
    have hne := h.manned he.1.inside
    have hresumed : Bounded { s with notFull := s.notFull.resume call } :=
      ⟨h.bounded, h.waits, h.once, fun hnone => absurd hnone hne⟩
    exact hresumed.push hne he.2 ht
  | rouseWorker w =>
    cases ht
    exact ⟨h.bounded, fun v hv => h.waits v (Condition.inside_rouse he hv),
      (Condition.perm_rouse he).nodup_iff.mpr h.once, h.unmanned⟩
  | rouseProducer call =>
    cases ht
    have hne := h.manned (Condition.mem_inside.mpr (.inl he))
    exact ⟨h.bounded, h.waits, h.once, fun hnone => absurd hnone hne⟩
  | stop =>
    cases ht
    exact ⟨h.bounded, fun v hv => h.waits v (Condition.inside_notifyAll.mp hv),
      (Condition.perm_notifyAll _).nodup_iff.mpr h.once, h.unmanned⟩

/-- A step that is no spurious wake-up leaves a thread for every producer that waits exactly
when there was one before and the step is manned. -/
theorem Bounded.step_guarded (h : s.Bounded) {e : Event T} (he : (machine T).enabled s e)
    (hno : e.spurious = false) {t : ThreadPool T} (ht : (machine T).step s e = .ok t) :
    t.Guarded ↔ s.Guarded ∧ s.Manned e := by
  cases e with
  | init w =>
    cases ht
    exact (guarded_setThread (b := .testing) he fun _ => rfl).trans (and_iff_left trivial).symm
  | finish w =>
    cases ht
    obtain ⟨task, hw⟩ := isBusy_getElem he
    exact (guarded_setThread (b := .testing) hw fun _ => rfl).trans (and_iff_left trivial).symm
  | test w =>
    cases ht
    have htest : (s.test w).Guarded ↔ s.Guarded := by
      apply guarded_setThread he
      intro hr
      rw [if_neg (by simp [hr])]
      rfl
    exact htest.trans (and_iff_left trivial).symm
  | take w wake =>
    cases ht
    exact h.take_guarded he.1 rfl he.2
  | retake w wake =>
    cases ht
    exact (h.resume he.1).1.take_guarded (h.waits w he.1.inside) rfl he.2
  | run call wake =>
    by_cases hnone : s.threads = []
    · cases (if_pos hnone).symm.trans ht
      refine ⟨fun hg => ⟨hg, fun _ hfull => ?_⟩, And.left⟩
      have hle := hfull.2
      rw [(h.unmanned hnone).1] at hle
      exact absurd hfull.1 (Nat.not_lt.mpr hle)
    · exact push_guarded ((if_neg hnone).symm.trans ht)
  | rerun call wake =>
    have hresumed : producersWaiting { s with notFull := s.notFull.resume call } =
        s.producersWaiting := by
      simp only [producersWaiting, Condition.resume_waiting]
    have hpush := push_guarded ht
    simp only [Guarded, hresumed] at hpush
    exact hpush
  | rouseWorker w | rouseProducer call => cases hno
  | stop =>
    cases ht
    have hrunning : s.running = true := he
    refine ⟨fun hg => ⟨fun hr => ?_, hg rfl⟩, fun hs _ => hs.2⟩
    exact hg rfl

/-- A spurious wake-up leaves fewer who wait. -/
theorem step_guarded_spurious {e : Event T} (hsp : e.spurious = true) (hs : s.Guarded)
    {t : ThreadPool T} (ht : (machine T).step s e = .ok t) : t.Guarded := by
  cases e with
  | rouseWorker w =>
    cases ht
    exact hs
  | rouseProducer call =>
    cases ht
    intro hr
    exact Nat.le_trans (List.length_erase_le) (hs hr)
  | init | finish | test | take | retake | run | rerun | stop => cases hsp

/-- A stopped pool strands nobody as long as its steps are manned. A run without spurious
wake-ups that has come to its end, the threads gone and no notification pending, has stranded
nobody only then. -/
theorem nobody_stranded {maxQueueSize numThreads : Nat} (hmax : 0 < maxQueueSize)
    {es : List (Event T)}
    (hl : (machine T).Legal (fun _ _ => True) (start T maxQueueSize numThreads) es) :
    ((machine T).Legal Manned (start T maxQueueSize numThreads) es →
      ∀ fs t, fs <+: es → (machine T).run (start T maxQueueSize numThreads) fs = .ok t →
        ¬t.Stranded) ∧
    ∀ t, (∀ e ∈ es, e.spurious = false) →
      (machine T).run (start T maxQueueSize numThreads) es = .ok t →
      t.Deserted → t.notFull.notified = [] →
      (¬t.Stranded ↔ (machine T).Legal Manned (start T maxQueueSize numThreads) es) := by
  have hstart := start_bounded (T := T) hmax numThreads
  have hguarded := start_guarded (T := T) maxQueueSize numThreads
  constructor
  · intro hmanned fs t hfs hr
    obtain ⟨gs, rfl⟩ := hfs
    have hreach : (machine T).Reaches Manned (start T maxQueueSize numThreads) fs t :=
      ⟨hmanned.left, hr⟩
    have hkept := hreach.keeps (I := fun s => s.Bounded ∧ s.Guarded) ?_ ⟨hstart, hguarded⟩
    · exact hkept.2.not_stranded
    · intro s e u hi he hc hu
      refine ⟨hi.1.step he hu, ?_⟩
      cases hsp : e.spurious with
      | true => exact step_guarded_spurious hsp hi.2 hu
      | false => exact (hi.1.step_guarded he hsp hu).mpr ⟨hi.2, hc⟩
  · intro t hno hr hdeserted hnone
    have hends := Machine.Legal.iff_ends (I := Bounded) (G := Guarded) (c := Manned)
      (fun s e u hi he hsp hu => ⟨hi.step he hu, hi.step_guarded he hsp hu⟩)
      hstart ⟨hl.all hno, hr⟩
    rw [← hdeserted.guarded_iff hnone, hends]
    exact and_iff_right hguarded

instance (s : ThreadPool T) : Decidable s.Deserted := inferInstanceAs (Decidable (_ ∧ _))

instance (s : ThreadPool T) : Decidable s.Stranded := inferInstanceAs (Decidable (_ ∧ _))

instance (s : ThreadPool T) : ∀ e, Decidable (s.Manned e)
  | .stop => inferInstanceAs (Decidable (_ ≤ _))
  | .run _ _ | .rerun _ _ | .take _ _ | .retake _ _ => inferInstanceAs (Decidable (_ → _ → _))
  | .init _ | .test _ | .finish _ | .rouseWorker _ | .rouseProducer _ => isTrue trivial

/-- One thread and one slot: when the pool is stopped a producer waits, and the thread is in
`take()`. It takes the task that is queued, and the producer goes on. -/
def lastOrders : List (Event Nat) :=
  [.init 0, .test 0, .take 0 none, .run ⟨7, some 70⟩ (some 0), .retake 0 none, .finish 0, .test 0,
    .run ⟨8, some 80⟩ none, .run ⟨9, some 90⟩ none, .stop, .take 0 (some ⟨9, some 90⟩),
    .rerun ⟨9, some 90⟩ none, .finish 0, .test 0]

/-- One thread and one slot: while the first task runs the second is queued, and the third
producer waits. The thread finishes its task, reads `running_`, and is gone. -/
def closingTime : List (Event Nat) :=
  [.init 0, .test 0, .take 0 none, .run ⟨7, some 70⟩ (some 0), .retake 0 none,
    .run ⟨8, some 80⟩ none, .run ⟨9, some 90⟩ none, .stop, .finish 0, .test 0]

theorem closingTime_ends :
    Yields (fun t => t.Deserted ∧ t.notFull.notified = []) (fun _ => False)
      ((machine Nat).run (start Nat 1 1) closingTime) := by
  decide

theorem nobody_stranded_sample :
    (∀ fs t, fs <+: lastOrders → (machine Nat).run (start Nat 1 1) fs = .ok t → ¬t.Stranded) ∧
    ∃ t, (machine Nat).run (start Nat 1 1) closingTime = .ok t ∧
      (¬t.Stranded ↔ (machine Nat).Legal Manned (start Nat 1 1) closingTime) := by
  have hlast : (machine Nat).Legal (fun _ _ => True) (start Nat 1 1) lastOrders := by decide
  have hclosing : (machine Nat).Legal (fun _ _ => True) (start Nat 1 1) closingTime := by decide
  obtain ⟨t, ht, hend⟩ := closingTime_ends.returns
  refine ⟨(nobody_stranded Nat.one_pos hlast).1 (by decide), t, ht, ?_⟩
  exact (nobody_stranded Nat.one_pos hclosing).2 t (by decide) ht hend.1 hend.2

theorem producer_stranded :
    ¬∀ es t, (machine Nat).Legal (fun _ _ => True) (start Nat 1 1) es →
      (machine Nat).run (start Nat 1 1) es = .ok t → ¬t.Stranded := by
  intro hall
  have hend : Yields Stranded (fun _ => False) ((machine Nat).run (start Nat 1 1) closingTime) := by
    decide
  obtain ⟨t, ht, hstranded⟩ := hend.returns
  exact hall closingTime t (by decide) ht hstranded

end ThreadPool

end Muduo.Base
