import Muduo.Lib.Condition
import Muduo.Net.Basic

namespace Muduo.Base
open Muduo.Lib Muduo.Net

/-- `returned` holds the threads whose calls of `wait` have returned. -/
structure CountDownLatch where
  count : Int
  condition : Condition Nat
  returned : List Nat
  deriving DecidableEq

namespace CountDownLatch

def new (count : Int) : CountDownLatch where
  count := count
  condition := .empty
  returned := []

/-- The critical section of `wait` from where the mutex is locked, also after a wait on the
condition, up to the next such wait or the end. -/
def wait (s : CountDownLatch) (k : Nat) : CountDownLatch :=
  if 0 < s.count then { s with condition := s.condition.wait k }
  else { s with returned := s.returned ++ [k] }

def countDown (s : CountDownLatch) : Except Fault CountDownLatch := do
  let count ← intAdd s.count (-1)
  let s := { s with count := count }
  .ok (if s.count = 0 then { s with condition := s.condition.notifyAll } else s)

def rewait (s : CountDownLatch) (k : Nat) : CountDownLatch :=
  { s with condition := s.condition.resume k }.wait k

def rouse (s : CountDownLatch) (k : Nat) : CountDownLatch :=
  { s with condition := s.condition.rouse k }

/-- A step of a thread; `rewait` goes on behind a wait on the condition. -/
inductive Event
  | wait (k : Nat)
  | rewait (k : Nat)
  | rouse (k : Nat)
  | countDown
  deriving DecidableEq

def enabled (s : CountDownLatch) : Event → Prop
  | .wait k => k ∉ s.condition.inside
  | .rewait k => s.condition.Woken k
  | .rouse k => k ∈ s.condition.waiting
  | .countDown => True

def step (s : CountDownLatch) : Event → Except Fault CountDownLatch
  | .wait k => .ok (s.wait k)
  | .rewait k => .ok (s.rewait k)
  | .rouse k => .ok (s.rouse k)
  | .countDown => s.countDown

def machine : Machine CountDownLatch Event Fault where
  enabled := enabled
  step := step

instance (s : CountDownLatch) : ∀ e, Decidable (machine.enabled s e)
  | .wait _ => inferInstanceAs (Decidable (_ ∉ _))
  | .rewait _ => inferInstanceAs (Decidable (s.condition.Woken _))
  | .rouse _ => inferInstanceAs (Decidable (_ ∈ _))
  | .countDown => isTrue trivial

/-- The calls of `wait` that the threads have made. -/
def waitCalls (es : List Event) : List Nat :=
  es.filterMap fun
    | .wait k => some k
    | _ => none

variable {s : CountDownLatch} {k : Nat}

theorem wait_closed (h : 0 < s.count) :
    s.wait k = { s with condition := s.condition.wait k } := if_pos h

theorem wait_open (h : ¬0 < s.count) : s.wait k = { s with returned := s.returned ++ [k] } :=
  if_neg h

theorem wait_count (s : CountDownLatch) (k : Nat) : (s.wait k).count = s.count := by
  unfold wait
  split <;> rfl

/-- Whoever has not got past the latch waits at it. -/
theorem wait_inside (h : (s.wait k).returned = []) : k ∈ (s.wait k).condition.inside := by
  by_cases hpos : 0 < s.count
  · rw [wait_closed hpos]
    exact Condition.inside_wait.mpr (.inr rfl)
  · rw [wait_open hpos] at h
    simp at h

/-- Nobody waits at an open latch, and nobody has got past a closed one. -/
structure Sound (s : CountDownLatch) : Prop where
  released : s.count ≤ 0 → s.condition.waiting = []
  not_early : 0 < s.count → s.returned = []

theorem new_sound (count : Int) : (new count).Sound := ⟨fun _ => rfl, fun _ => rfl⟩

theorem Sound.wait (h : s.Sound) (k : Nat) : (s.wait k).Sound := by
  by_cases hpos : 0 < s.count
  · rw [wait_closed hpos]
    refine ⟨fun hle => ?_, h.not_early⟩
    change s.count ≤ 0 at hle
    omega
  · rw [wait_open hpos]
    exact ⟨h.released, fun hlt => absurd hlt hpos⟩

theorem Sound.rewait (h : s.Sound) (k : Nat) : (s.rewait k).Sound := by
  have hresumed : Sound { s with condition := s.condition.resume k } := by
    refine ⟨fun hle => ?_, h.not_early⟩
    simpa using h.released hle
  exact hresumed.wait k

theorem Sound.rouse (h : s.Sound) (k : Nat) : (s.rouse k).Sound := by
  refine ⟨fun hle => ?_, h.not_early⟩
  simp [CountDownLatch.rouse, Condition.rouse, h.released hle]

theorem countDown_eq (hmin : -2 ^ 31 ≤ s.count - 1) (hmax : s.count ≤ 2 ^ 31) :
    s.countDown = .ok { s with
      count := s.count - 1
      condition := if s.count - 1 = 0 then s.condition.notifyAll else s.condition } := by
  rw [countDown, intAdd_of_lt (by omega) (by omega), ok_bind]
  split <;> simp_all [← Int.sub_eq_add_neg]

theorem Sound.countDown (h : s.Sound) : Sound { s with
    count := s.count - 1
    condition := if s.count - 1 = 0 then s.condition.notifyAll else s.condition } := by
  refine ⟨fun hle => ?_, fun hlt => ?_⟩
  · -- it opens at zero, and was open already below
    change s.count - 1 ≤ 0 at hle
    by_cases hzero : s.count - 1 = 0
    · simp [hzero, Condition.notifyAll]
    · simp only [hzero, if_false]
      exact h.released (by omega)
  · change 0 < s.count - 1 at hlt
    exact h.not_early (by omega)

/-- The count stays an `int`. -/
def InRange (s : CountDownLatch) : Event → Prop
  | .countDown => -2 ^ 31 < s.count
  | _ => True

instance (s : CountDownLatch) : ∀ e, Decidable (s.InRange e)
  | .countDown => inferInstanceAs (Decidable (_ < _))
  | .wait _ | .rewait _ | .rouse _ => isTrue trivial

/-- The latch after some events: nobody has got past it before it was counted down, and then
nobody waits that is not on the way out. -/
structure Latched (count : Int) (s : CountDownLatch) (es : List Event) : Prop where
  counted : s.count = count - es.count .countDown
  waits_made : (s.returned ++ s.condition.inside).Perm (waitCalls es)
  not_early : s.returned ≠ [] → count ≤ es.count .countDown
  released : count ≤ es.count .countDown → s.condition.waiting = []

/-- What holds between two steps. -/
structure Stands (count : Int) (s : CountDownLatch) (es : List Event) : Prop where
  sound : s.Sound
  counted : s.count = count - es.count .countDown
  waits_made : (s.returned ++ s.condition.inside).Perm (waitCalls es)

variable {count : Int} {es : List Event}

theorem Stands.latched (h : s.Stands count es) : Latched count s es where
  counted := h.counted
  waits_made := h.waits_made
  not_early hne := by
    have hcounted := h.counted
    by_contra hlt
    exact hne (h.sound.not_early (by omega))
  released hle := by
    have hcounted := h.counted
    exact h.sound.released (by omega)

theorem wait_made {calls : List Nat} (h : (k :: (s.returned ++ s.condition.inside)).Perm calls) :
    ((s.wait k).returned ++ (s.wait k).condition.inside).Perm calls := by
  by_cases hpos : 0 < s.count
  · rw [wait_closed hpos]
    have hwait := (Condition.perm_wait s.condition k).append_left s.returned
    exact (hwait.trans List.perm_middle).trans h
  · rw [wait_open hpos]
    simp only [List.append_assoc, List.singleton_append]
    exact List.perm_middle.trans h

theorem Stands.step (h : s.Stands count es) (hmax : count < 2 ^ 31) {e : Event}
    (he : machine.enabled s e) (hc : s.InRange e) :
    Yields (fun t => t.Stands count (es ++ [e])) (fun _ => False) (machine.step s e) := by
  have hcounted := h.counted
  cases e with
  | wait k =>
    refine ⟨h.sound.wait k, ?_, wait_made ?_⟩
    · simpa [wait_count] using hcounted
    · simpa [waitCalls] using (h.waits_made.cons k).trans (List.perm_append_singleton k _).symm
  | rewait k =>
    refine ⟨h.sound.rewait k, ?_, wait_made ?_⟩
    · simpa [rewait, wait_count] using hcounted
    · have hresume := (Condition.perm_resume he).append_left s.returned
      simpa [waitCalls] using List.perm_middle.symm.trans (hresume.trans h.waits_made)
  | rouse k =>
    refine ⟨h.sound.rouse k, by simpa [rouse] using hcounted, ?_⟩
    simpa [waitCalls, rouse] using ((Condition.perm_rouse he).append_left _).trans h.waits_made
  | countDown =>
    change -2 ^ 31 < s.count at hc
    have hle : s.count ≤ count := by omega
    rw [show machine.step s .countDown = s.countDown from rfl,
      countDown_eq (by omega) (by omega)]
    refine ⟨h.sound.countDown, ?_, ?_⟩
    · simp only [List.count_append, List.count_singleton_self]
      omega
    · by_cases hzero : s.count - 1 = 0
      · simpa [hzero, waitCalls, Condition.inside, Condition.notifyAll] using
          (Condition.perm_notifyAll s.condition).append_left s.returned |>.trans h.waits_made
      · simpa [hzero, waitCalls] using h.waits_made

/-- Whatever the threads do, and in whatever order. -/
theorem latch_opens (hmax : count < 2 ^ 31)
    (hl : machine.Legal InRange (new count) es) :
    Yields (fun s => Latched count s es) (fun _ => False) (machine.run (new count) es) := by
  have hstart : (new count).Stands count [] := by
    refine ⟨new_sound count, ?_, .refl _⟩
    simp [new]
  have hrun := Machine.run_history (fun s past e hs he hc => hs.step hmax he hc) hstart hl
  exact hrun.mono fun s hs => hs.latched

/-- Two threads wait for two others; one of them wakes up too early. -/
theorem latch_opens_sample :
    Yields (fun s => Latched 2 s [.wait 1, .wait 2, .countDown, .rouse 2, .rewait 2, .countDown,
        .rewait 2, .rewait 1, .wait 2]) (fun _ => False)
      (machine.run (new 2) [.wait 1, .wait 2, .countDown, .rouse 2, .rewait 2, .countDown,
        .rewait 2, .rewait 1, .wait 2]) :=
  latch_opens (by decide) (by decide)

end CountDownLatch

end Muduo.Base
