import Muduo.Base.CountDownLatch

namespace Muduo.Base
open Muduo.Lib Muduo.Net

/-- Where the thread that owns a `Thread` stands: in none of its functions, in `start` behind
`pthread_create`, in `latch_.wait()` on the condition, in `pthread_join`, or behind the
destructor. -/
inductive Owner
  | outside
  | created
  | waiting
  | joining
  | gone
  deriving DecidableEq

/-- Where the new thread stands in `runInThread`. -/
inductive Child
  | unborn
  | starting
  | published
  | running
  | finished
  deriving DecidableEq

/-- The new thread has counted the latch down. -/
def Child.counted : Child → Bool
  | .running | .finished => true
  | _ => false

/-- The new thread has stored its id. -/
def Child.known : Child → Bool
  | .unborn | .starting => false
  | _ => true

/-- The owner is in `start`. -/
def Owner.inStart : Owner → Bool
  | .created | .waiting => true
  | _ => false

structure Thread where
  started : Bool
  joined : Bool
  detached : Bool
  tid : Int
  latch : CountDownLatch
  owner : Owner
  child : Child
  deriving DecidableEq

namespace Thread

def new : Thread where
  started := false
  joined := false
  detached := false
  tid := 0
  latch := .new 1
  owner := .outside
  child := .unborn

/-- `start` up to its call of `latch_.wait()`; `created` says whether `pthread_create` succeeds. -/
def start (s : Thread) (created : Bool) : Except Fault Thread := do
  check (s.started = false)
  if created then .ok { s with started := true, owner := .created, child := .starting }
  else .error .fatal

/-- What follows on a step of the owner in `latch_.wait()`. -/
def afterWait (s : Thread) (latch : CountDownLatch) : Except Fault Thread :=
  if latch.returned = [] then .ok { s with latch := latch, owner := .waiting }
  else do
    check (0 < s.tid)
    .ok { s with latch := latch, owner := .outside }

/-- The new thread uses a pointer to a member. -/
def deref (s : Thread) : Except Fault Unit :=
  if s.owner = .gone then .error .useAfterFree else .ok ()

/-- `*tid_ = muduo::CurrentThread::tid()`. -/
def publish (s : Thread) (tid : Int) : Except Fault Thread := do
  s.deref
  .ok { s with tid := tid, child := .published }

/-- `latch_->countDown()`. -/
def countDown (s : Thread) : Except Fault Thread := do
  s.deref
  let latch ← s.latch.countDown
  .ok { s with latch := latch, child := .running }

def join (s : Thread) : Except Fault Thread := do
  check (s.started = true)
  check (s.joined = false)
  .ok { s with joined := true, owner := .joining }

/-- The destructor. -/
def destroy (s : Thread) : Thread :=
  { s with detached := s.started && !s.joined, owner := .gone }

/-- A step of the owner or of the new thread, whose `tid` the kernel has chosen. -/
inductive Event
  | start (created : Bool)
  | wait
  | rewait
  | rouse
  | join
  | joinReturns
  | destroy
  | publish (tid : Int)
  | countDown
  | finish
  deriving DecidableEq

def enabled (s : Thread) : Event → Prop
  | .start _ => s.owner = .outside
  | .wait => s.owner = .created
  | .rewait => s.owner = .waiting ∧ s.latch.condition.Woken 0
  | .rouse => 0 ∈ s.latch.condition.waiting
  | .join => s.owner = .outside
  | .joinReturns => s.owner = .joining ∧ s.child = .finished
  | .destroy => s.owner = .outside
  | .publish tid => s.child = .starting ∧ 0 < tid
  | .countDown => s.child = .published
  | .finish => s.child = .running

def step (s : Thread) : Event → Except Fault Thread
  | .start created => s.start created
  | .wait => s.afterWait (s.latch.wait 0)
  | .rewait => s.afterWait (s.latch.rewait 0)
  | .rouse => .ok { s with latch := s.latch.rouse 0 }
  | .join => s.join
  | .joinReturns => .ok { s with owner := .outside }
  | .destroy => .ok s.destroy
  | .publish tid => s.publish tid
  | .countDown => s.countDown
  | .finish => .ok { s with child := .finished }

def machine : Machine Thread Event Fault where
  enabled := enabled
  step := step

/-- The owner starts the thread once, and joins it once if at all. -/
def Proper (s : Thread) : Event → Prop
  | .start created => s.started = false ∧ created = true
  | .join => s.started = true ∧ s.joined = false
  | _ => True

instance (s : Thread) : ∀ e, Decidable (machine.enabled s e)
  | .start _ | .wait | .join | .destroy | .countDown | .finish => inferInstanceAs (Decidable (_ = _))
  | .rewait => inferInstanceAs (Decidable (s.owner = .waiting ∧ s.latch.condition.Woken 0))
  | .rouse => inferInstanceAs (Decidable (_ ∈ _))
  | .joinReturns | .publish _ => inferInstanceAs (Decidable (_ ∧ _))

instance (s : Thread) : ∀ e, Decidable (s.Proper e)
  | .start _ | .join => inferInstanceAs (Decidable (_ ∧ _))
  | .wait | .rewait | .rouse | .joinReturns | .destroy | .publish _ | .countDown | .finish =>
    isTrue trivial

structure Sound (s : Thread) : Prop where
  latch : s.latch.Sound
  count : s.latch.count = if s.child.counted then 0 else 1
  tid : s.child.known = true → 0 < s.tid
  born : s.started = true ↔ s.child ≠ .unborn
  passed : s.owner.inStart = false → s.started = true → s.latch.returned ≠ []
  inside : s.owner.inStart = true → s.started = true ∧ s.latch.returned = []
  waits : s.owner = .waiting → 0 ∈ s.latch.condition.inside

/-- What the owner may rely on: behind `start` the id is known and the new thread needs the
`Thread` no more, and `start` does not wait for a latch that is open. -/
structure Safe (s : Thread) : Prop where
  tid_known : s.started = true → s.owner.inStart = false → 0 < s.tid ∧ s.child.counted = true
  not_stuck : s.owner = .waiting → s.child.counted = true → s.latch.condition.Woken 0

variable {s : Thread}

theorem new_sound : new.Sound where
  latch := CountDownLatch.new_sound 1
  count := rfl
  tid := by simp [new, Child.known]
  born := by simp [new]
  passed := by simp [new]
  inside := by simp [new, Owner.inStart]
  waits := by simp [new]

theorem Sound.opened (h : s.Sound) (hne : s.latch.returned ≠ []) : s.child.counted = true := by
  have hcount := h.count
  cases hc : s.child.counted with
  | true => rfl
  | false =>
    simp only [hc, Bool.false_eq_true, if_false] at hcount
    exact absurd (h.latch.not_early (by omega)) hne

theorem Child.known_of_counted {c : Child} (h : c.counted = true) : c.known = true := by
  cases c with
  | running | finished => rfl
  | unborn | starting | published => simp [Child.counted] at h

theorem Sound.safe (h : s.Sound) : s.Safe where
  tid_known hstarted hout := by
    have hcounted := h.opened (h.passed hout hstarted)
    exact ⟨h.tid (Child.known_of_counted hcounted), hcounted⟩
  not_stuck hwaits hcounted := by
    have hcount := h.count
    simp only [hcounted, if_true] at hcount
    have hnone := h.latch.released (Int.le_of_eq hcount)
    have hin := h.waits hwaits
    rw [Condition.mem_inside, hnone] at hin
    exact hin.resolve_left (by simp)

theorem deref_eq (h : s.owner ≠ .gone) : s.deref = .ok () := if_neg h

/-- As long as the new thread has to count down, the owner has not got past `start`. -/
theorem Sound.not_gone (h : s.Sound) (hborn : s.child ≠ .unborn)
    (hcounted : s.child.counted = false) : s.owner ≠ .gone := by
  intro hgone
  have hstarted := h.born.mpr hborn
  have hopen := h.opened (h.passed (by rw [hgone]; rfl) hstarted)
  rw [hcounted] at hopen
  cases hopen

/-- The owner takes a step in `latch_.wait()`. -/
theorem Sound.afterWait (h : s.Sound) (hin : s.owner.inStart = true) {latch : CountDownLatch}
    (hl : latch.Sound) (hcount : latch.count = s.latch.count)
    (hwait : latch.returned = [] → 0 ∈ latch.condition.inside) :
    Yields Sound (fun _ => False) (s.afterWait latch) := by
  obtain ⟨hstarted, -⟩ := h.inside hin
  by_cases hret : latch.returned = []
  · rw [Thread.afterWait, if_pos hret]
    exact ⟨hl, hcount.trans h.count, h.tid, h.born, by simp [Owner.inStart],
      fun _ => ⟨hstarted, hret⟩, fun _ => hwait hret⟩
  · rw [Thread.afterWait, if_neg hret]
    have hnew : Sound { s with latch := latch, owner := .outside } :=
      ⟨hl, hcount.trans h.count, h.tid, h.born, fun _ _ => hret, by simp [Owner.inStart],
        by simp⟩
    have hcounted := hnew.opened hret
    rw [check_pos (h.tid (Child.known_of_counted hcounted)), ok_bind]
    exact hnew

theorem Sound.step (h : s.Sound) {e : Event} (he : machine.enabled s e) (hc : s.Proper e) :
    Yields Sound (fun _ => False) (machine.step s e) := by
  cases e with
  | start created =>
    obtain ⟨hnew, rfl⟩ := hc
    have hborn : s.child = .unborn := by
      by_contra hne
      have hstarted := h.born.mpr hne
      rw [hnew] at hstarted
      cases hstarted
    have hclosed : 0 < s.latch.count := by
      rw [h.count, hborn]
      decide
    have hstep : machine.step s (.start true) =
        .ok { s with started := true, owner := .created, child := .starting } := by
      change s.start true = _
      rw [Thread.start, check_pos hnew, ok_bind, if_pos rfl]
    rw [hstep]
    refine ⟨h.latch, ?_, by simp [Child.known], by simp, by simp [Owner.inStart],
      fun _ => ⟨rfl, h.latch.not_early hclosed⟩, by simp⟩
    rw [h.count, hborn]
    rfl
  | wait =>
    have hin : s.owner.inStart = true := by
      rw [show s.owner = .created from he]
      rfl
    exact h.afterWait hin (h.latch.wait 0) (CountDownLatch.wait_count _ _)
      CountDownLatch.wait_inside
  | rewait =>
    have hin : s.owner.inStart = true := by
      rw [he.1]
      rfl
    exact h.afterWait hin (h.latch.rewait 0) (CountDownLatch.wait_count _ _)
      CountDownLatch.wait_inside
  | rouse =>
    refine ⟨h.latch.rouse 0, h.count, h.tid, h.born, h.passed, h.inside, fun hwaits => ?_⟩
    exact (Condition.perm_rouse he).mem_iff.mpr (h.waits hwaits)
  | join =>
    have hstep : machine.step s .join = .ok { s with joined := true, owner := .joining } := by
      change s.join = _
      rw [Thread.join, check_pos hc.1, ok_bind, check_pos hc.2, ok_bind]
    rw [hstep]
    have hout : s.owner.inStart = false := by
      rw [show s.owner = .outside from he]
      rfl
    exact ⟨h.latch, h.count, h.tid, h.born, fun _ => h.passed hout, by simp [Owner.inStart],
      by simp⟩
  | joinReturns =>
    have hout : s.owner.inStart = false := by
      rw [he.1]
      rfl
    exact ⟨h.latch, h.count, h.tid, h.born, fun _ => h.passed hout, by simp [Owner.inStart],
      by simp⟩
  | destroy =>
    have hout : s.owner.inStart = false := by
      rw [show s.owner = .outside from he]
      rfl
    exact ⟨h.latch, h.count, h.tid, h.born, fun _ => h.passed hout,
      by simp [Thread.destroy, Owner.inStart], by simp [Thread.destroy]⟩
  | publish tid =>
    obtain ⟨hat, hpos⟩ := he
    have halive := h.not_gone (by simp [hat]) (by simp [hat, Child.counted])
    have hstep : machine.step s (.publish tid) =
        .ok { s with tid := tid, child := .published } := by
      change s.publish tid = _
      rw [Thread.publish, deref_eq halive, ok_bind]
    rw [hstep]
    refine ⟨h.latch, ?_, fun _ => hpos, ?_, h.passed, h.inside, h.waits⟩
    · rw [h.count, hat]
      rfl
    · simp [h.born, hat]
  | countDown =>
    have hat : s.child = .published := he
    have halive := h.not_gone (by simp [hat]) (by simp [hat, Child.counted])
    have hcount : s.latch.count = 1 := by
      rw [h.count, hat]
      rfl
    have hstep : machine.step s .countDown = .ok { s with
        latch := { s.latch with
          count := s.latch.count - 1
          condition := if s.latch.count - 1 = 0 then s.latch.condition.notifyAll
            else s.latch.condition }
        child := .running } := by
      change s.countDown = _
      rw [Thread.countDown, deref_eq halive, ok_bind,
        CountDownLatch.countDown_eq (by omega) (by omega), ok_bind]
    rw [hstep]
    refine ⟨h.latch.countDown, ?_, fun _ => h.tid (by simp [hat, Child.known]), ?_, h.passed,
      h.inside, fun hwaits => ?_⟩
    · simp [hcount, Child.counted]
    · simp [h.born, hat]
    · simp only [hcount, Int.sub_self, if_true]
      exact Condition.inside_notifyAll.mpr (h.waits hwaits)
  | finish =>
    have hat : s.child = .running := he
    refine ⟨h.latch, ?_, fun _ => h.tid (by simp [hat, Child.known]), ?_, h.passed, h.inside,
      h.waits⟩
    · rw [h.count, hat]
      rfl
    · simp [h.born, hat]

/-- However the two threads get on, `start` returns only with the id known and no pointer to the
`Thread` left in use, and no assertion fails. -/
theorem start_handshake {es : List Event} (hl : machine.Legal Proper new es) :
    Yields Safe (fun _ => False) (machine.run new es) := by
  have hrun := Machine.run_keeps (fun s e hs he hc => hs.step he hc) new_sound hl
  exact hrun.mono fun s hs => hs.safe

/-- The owner comes to wait first, wakes up for no reason, and destroys the `Thread` while the
new thread runs on. -/
theorem start_handshake_sample :
    Yields Safe (fun _ => False) (machine.run new [.start true, .wait, .rouse, .publish 7, .rewait,
      .countDown, .rewait, .destroy, .finish]) :=
  start_handshake (by decide)

end Thread

end Muduo.Base
