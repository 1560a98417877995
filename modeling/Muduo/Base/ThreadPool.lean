import Muduo.Lib.Condition
import Muduo.Net.Basic

namespace Muduo.Base
open Muduo.Lib Muduo.Net

/-- A `std::function<void()>`, which may be empty. -/
abbrev Task (T : Type) := Option T

/-- Where a thread of the pool is in `runInThread`: in `threadInitCallback_`, about to read
`running_`, about to lock the mutex in `take()`, in `notEmpty_.wait()`, in a task, or behind
the loop. -/
inductive Worker (T : Type)
  | starting
  | testing
  | taking
  | waiting
  | busy (task : T)
  | finished
  deriving DecidableEq

def Worker.isBusy {T : Type} : Worker T → Bool
  | .busy _ => true
  | _ => false

/-- `if (task)`. -/
def Worker.given {T : Type} : Task T → Worker T
  | some task => .busy task
  | none => .testing

/-- A call of `run`. -/
structure Call (T : Type) where
  producer : Nat
  task : Task T
  deriving DecidableEq

/-- `pushed` holds the tasks in the order in which `run` has put them into the queue, and `taken`
those that `take` has returned, each with the thread that has it. -/
structure ThreadPool (T : Type) where
  maxQueueSize : Nat
  running : Bool
  threads : List (Worker T)
  queue : List (Task T)
  notEmpty : Condition Nat
  notFull : Condition (Call T)
  pushed : List (Task T)
  taken : List (Nat × Task T)
  deriving DecidableEq

namespace ThreadPool

variable {T : Type}

/-- The constructor, `setMaxQueueSize` and `start(numThreads)`. -/
def start (T : Type) (maxQueueSize numThreads : Nat) : ThreadPool T where
  maxQueueSize := maxQueueSize
  running := true
  threads := List.replicate numThreads .starting
  queue := []
  notEmpty := .empty
  notFull := .empty
  pushed := []
  taken := []

def isFull (s : ThreadPool T) : Prop := 0 < s.maxQueueSize ∧ s.maxQueueSize ≤ s.queue.length

instance (s : ThreadPool T) : Decidable s.isFull := inferInstanceAs (Decidable (_ ∧ _))

def setThread (s : ThreadPool T) (w : Nat) (at' : Worker T) : ThreadPool T :=
  { s with threads := s.threads.set w at' }

@[simp] theorem setThread_length (s : ThreadPool T) (w : Nat) (at' : Worker T) :
    (s.setThread w at').threads.length = s.threads.length := List.length_set

/-- The critical section of `stop`; the threads are joined when they have finished. -/
def stop (s : ThreadPool T) : ThreadPool T :=
  { s with running := false, notEmpty := s.notEmpty.notifyAll }

/-- `while (running_)`. -/
def test (s : ThreadPool T) (w : Nat) : ThreadPool T :=
  s.setThread w (if s.running then .taking else .finished)

/-- The critical section of `run` from where the mutex is locked, also after a wait, up to the
next wait or the end. -/
def push (s : ThreadPool T) (call : Call T) (wake : Option Nat) : Except Fault (ThreadPool T) :=
  if s.isFull then .ok { s with notFull := s.notFull.wait call }
  else do
    check (¬s.isFull)
    .ok { s with
      queue := s.queue ++ [call.task]
      notEmpty := s.notEmpty.notify wake
      pushed := s.pushed ++ [call.task] }

variable {s : ThreadPool T} {call : Call T} {w : Nat}

theorem push_full (h : s.isFull) (wake : Option Nat) :
    s.push call wake = .ok { s with notFull := s.notFull.wait call } := if_pos h

theorem push_room (h : ¬s.isFull) (wake : Option Nat) :
    s.push call wake = .ok { s with
      queue := s.queue ++ [call.task]
      notEmpty := s.notEmpty.notify wake
      pushed := s.pushed ++ [call.task] } := by
  rw [push, if_neg h, check_pos h, ok_bind]

theorem push_threads {t : ThreadPool T} {call : Call T} {wake : Option Nat}
    (h : s.push call wake = .ok t) : t.threads = s.threads := by
  by_cases hfull : s.isFull
  · rw [push_full hfull] at h
    cases h
    rfl
  · rw [push_room hfull] at h
    cases h
    rfl

/-- Without threads the task runs in the caller. -/
def run (s : ThreadPool T) (call : Call T) (wake : Option Nat) : Except Fault (ThreadPool T) :=
  if s.threads = [] then .ok s else s.push call wake

variable [DecidableEq T]

/-- The critical section of `take`, likewise, with what `runInThread` does with the task. -/
def take (s : ThreadPool T) (w : Nat) (wake : Option (Call T)) : ThreadPool T :=
  match s.queue with
  | [] =>
    if s.running then { s with notEmpty := s.notEmpty.wait w }.setThread w .waiting
    else s.setThread w .testing
  | task :: queue =>
    { s with
      queue := queue
      notFull := if 0 < s.maxQueueSize then s.notFull.notify wake else s.notFull
      taken := s.taken ++ [(w, task)] }.setThread w (.given task)

theorem take_waits (hq : s.queue = []) (hr : s.running = true) (wake : Option (Call T)) :
    s.take w wake = { s with notEmpty := s.notEmpty.wait w }.setThread w .waiting := by
  simp only [take, hq, hr, if_true]

theorem take_nothing (hq : s.queue = []) (hr : ¬s.running = true) (wake : Option (Call T)) :
    s.take w wake = s.setThread w .testing := by
  simp only [take, hq, hr]
  rfl

theorem take_task {task : Task T} {queue : List (Task T)} (hq : s.queue = task :: queue)
    (wake : Option (Call T)) :
    s.take w wake = { s with
      queue := queue
      notFull := if 0 < s.maxQueueSize then s.notFull.notify wake else s.notFull
      taken := s.taken ++ [(w, task)] }.setThread w (.given task) := by
  simp only [take, hq]

theorem take_length (s : ThreadPool T) (w : Nat) (wake : Option (Call T)) :
    (s.take w wake).threads.length = s.threads.length := by
  cases hq : s.queue with
  | nil =>
    by_cases hr : s.running
    · rw [take_waits hq hr, setThread_length]
    · rw [take_nothing hq hr, setThread_length]
  | cons task queue => rw [take_task hq, setThread_length]

/-- A step of a thread. Where it notifies, `wake` is the thread that this wakes. -/
inductive Event (T : Type)
  | init (w : Nat)
  | test (w : Nat)
  | take (w : Nat) (wake : Option (Call T))
  | retake (w : Nat) (wake : Option (Call T))
  | finish (w : Nat)
  | run (call : Call T) (wake : Option Nat)
  | rerun (call : Call T) (wake : Option Nat)
  | rouseWorker (w : Nat)
  | rouseProducer (call : Call T)
  | stop

/-- `retake` and `rerun` go on behind a wait. A producer makes one call at a time. -/
def enabled (s : ThreadPool T) : Event T → Prop
  | .init w => s.threads[w]? = some .starting
  | .test w => s.threads[w]? = some .testing
  | .take w wake => s.threads[w]? = some .taking ∧ s.notFull.MayWake wake
  | .retake w wake => s.notEmpty.Woken w ∧ s.notFull.MayWake wake
  | .finish w => s.threads[w]?.any Worker.isBusy = true
  | .run call wake =>
    (∀ c ∈ s.notFull.inside, c.producer ≠ call.producer) ∧ s.notEmpty.MayWake wake
  | .rerun call wake => s.notFull.Woken call ∧ s.notEmpty.MayWake wake
  | .rouseWorker w => w ∈ s.notEmpty.waiting
  | .rouseProducer call => call ∈ s.notFull.waiting
  | .stop => s.running = true

def step (s : ThreadPool T) : Event T → Except Fault (ThreadPool T)
  | .init w => .ok (s.setThread w .testing)
  | .test w => .ok (s.test w)
  | .take w wake => .ok (s.take w wake)
  | .retake w wake => .ok ({ s with notEmpty := s.notEmpty.resume w }.take w wake)
  | .finish w => .ok (s.setThread w .testing)
  | .run call wake => s.run call wake
  | .rerun call wake => { s with notFull := s.notFull.resume call }.push call wake
  | .rouseWorker w => .ok { s with notEmpty := s.notEmpty.rouse w }
  | .rouseProducer call => .ok { s with notFull := s.notFull.rouse call }
  | .stop => .ok s.stop

def machine (T : Type) [DecidableEq T] : Machine (ThreadPool T) (Event T) Fault where
  enabled := enabled
  step := step

instance (s : ThreadPool T) : ∀ e, Decidable ((machine T).enabled s e)
  | .init _ | .test _ | .finish _ | .stop => inferInstanceAs (Decidable (_ = _))
  | .rouseWorker _ | .rouseProducer _ => inferInstanceAs (Decidable (_ ∈ _))
  | .take .. | .retake .. | .run .. | .rerun .. => inferInstanceAs (Decidable (_ ∧ _))

theorem step_length {t : ThreadPool T} {e : Event T} (h : (machine T).step s e = .ok t) :
    t.threads.length = s.threads.length := by
  cases e with
  | init w | test w | finish w =>
    cases h
    exact setThread_length _ _ _
  | take w wake | retake w wake =>
    cases h
    exact take_length _ _ _
  | run call wake =>
    by_cases hnone : s.threads = []
    · cases (if_pos hnone).symm.trans h
      rfl
    · rw [push_threads ((if_neg hnone).symm.trans h)]
  | rerun call wake => rw [push_threads h]
  | rouseWorker w | rouseProducer call | stop =>
    cases h
    rfl

end ThreadPool

end Muduo.Base
