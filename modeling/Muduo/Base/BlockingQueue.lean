import Muduo.Lib.Condition
import Muduo.Lib.Settling
import Muduo.Net.Basic

namespace Muduo.Base
open Muduo.Lib Muduo.Net

/-- A call of `put`. -/
structure Put (T : Type) where
  producer : Nat
  x : T
  deriving DecidableEq

/-- A `BoundedBlockingQueue` has the capacity of its `boost::circular_buffer`; a `BlockingQueue`,
with its `std::deque`, has none, and no `notFull_`. `stored` holds the calls of `put` that have
returned, and `taken` what the calls of `take` have returned, each with the thread that made it. -/
structure BlockingQueue (T : Type) where
  capacity : Option Nat
  queue : List T
  notEmpty : Condition Nat
  notFull : Condition (Put T)
  stored : List (Put T)
  taken : List (Nat × T)
  deriving DecidableEq

namespace BlockingQueue

variable {T : Type}

/-- The constructors. -/
def empty (T : Type) (capacity : Option Nat) : BlockingQueue T where
  capacity := capacity
  queue := []
  notEmpty := .empty
  notFull := .empty
  stored := []
  taken := []

/-- `queue_.full()`. -/
def isFull (s : BlockingQueue T) : Prop := s.capacity = some s.queue.length

instance (s : BlockingQueue T) : Decidable s.isFull := inferInstanceAs (Decidable (_ = _))

/-- A full circular buffer overwrites its oldest element. -/
def pushBack (s : BlockingQueue T) (x : T) : List T :=
  if s.isFull then (s.queue ++ [x]).tail else s.queue ++ [x]

/-- The critical section of `put` from where the mutex is locked, also after a wait, up to the
next wait or the end. -/
def put (s : BlockingQueue T) (call : Put T) (wake : Option Nat) :
    Except Fault (BlockingQueue T) :=
  if s.isFull then .ok { s with notFull := s.notFull.wait call }
  else do
    check (¬s.isFull)
    .ok { s with
      queue := s.pushBack call.x
      notEmpty := s.notEmpty.notify wake
      stored := s.stored ++ [call] }

/-- The critical section of `take`, likewise. -/
def take [DecidableEq T] (s : BlockingQueue T) (consumer : Nat) (wake : Option (Put T)) :
    BlockingQueue T :=
  match s.queue with
  | [] => { s with notEmpty := s.notEmpty.wait consumer }
  | x :: queue =>
    { s with
      queue := queue
      notFull := if s.capacity.isSome then s.notFull.notify wake else s.notFull
      taken := s.taken ++ [(consumer, x)] }

/-- The thread is in no call. -/
def isIdle (s : BlockingQueue T) (thread : Nat) : Prop :=
  thread ∉ s.notEmpty.inside ∧ ∀ call ∈ s.notFull.inside, call.producer ≠ thread

/-- A step of a thread. Where it notifies, `wake` is the thread that this wakes. -/
inductive Event (T : Type)
  | put (call : Put T) (wake : Option Nat)
  | reput (call : Put T) (wake : Option Nat)
  | take (consumer : Nat) (wake : Option (Put T))
  | retake (consumer : Nat) (wake : Option (Put T))
  | rouseProducer (call : Put T)
  | rouseConsumer (consumer : Nat)

/-- `reput` and `retake` go on behind a wait. -/
def enabled (s : BlockingQueue T) : Event T → Prop
  | .put call wake => s.isIdle call.producer ∧ s.notEmpty.MayWake wake
  | .reput call wake => s.notFull.Woken call ∧ s.notEmpty.MayWake wake
  | .take consumer wake => s.isIdle consumer ∧ s.notFull.MayWake wake
  | .retake consumer wake => s.notEmpty.Woken consumer ∧ s.notFull.MayWake wake
  | .rouseProducer call => call ∈ s.notFull.waiting
  | .rouseConsumer consumer => consumer ∈ s.notEmpty.waiting

variable [DecidableEq T]

def step (s : BlockingQueue T) : Event T → Except Fault (BlockingQueue T)
  | .put call wake => s.put call wake
  | .reput call wake => { s with notFull := s.notFull.resume call }.put call wake
  | .take consumer wake => .ok (s.take consumer wake)
  | .retake consumer wake =>
    .ok ({ s with notEmpty := s.notEmpty.resume consumer }.take consumer wake)
  | .rouseProducer call => .ok { s with notFull := s.notFull.rouse call }
  | .rouseConsumer consumer => .ok { s with notEmpty := s.notEmpty.rouse consumer }

def machine (T : Type) [DecidableEq T] : Machine (BlockingQueue T) (Event T) Fault where
  enabled := enabled
  step := step

instance (s : BlockingQueue T) (thread : Nat) : Decidable (s.isIdle thread) :=
  inferInstanceAs (Decidable (_ ∧ _))

instance (s : BlockingQueue T) : ∀ e, Decidable ((machine T).enabled s e)
  | .rouseProducer _ | .rouseConsumer _ => inferInstanceAs (Decidable (_ ∈ _))
  | .put .. | .reput .. | .take .. | .retake .. => inferInstanceAs (Decidable (_ ∧ _))

section

omit [DecidableEq T]

variable {s : BlockingQueue T} {call : Put T}

theorem put_full (h : s.isFull) (wake : Option Nat) :
    s.put call wake = .ok { s with notFull := s.notFull.wait call } := if_pos h

theorem put_room (h : ¬s.isFull) (wake : Option Nat) :
    s.put call wake = .ok { s with
      queue := s.queue ++ [call.x]
      notEmpty := s.notEmpty.notify wake
      stored := s.stored ++ [call] } := by
  rw [put, if_neg h, check_pos h, ok_bind, pushBack, if_neg h]

end

variable {s : BlockingQueue T} {consumer : Nat}

theorem take_empty (hq : s.queue = []) (wake : Option (Put T)) :
    s.take consumer wake = { s with notEmpty := s.notEmpty.wait consumer } := by
  simp only [take, hq]

theorem take_front {x : T} {queue : List T} (hq : s.queue = x :: queue) (wake : Option (Put T)) :
    s.take consumer wake = { s with
      queue := queue
      notFull := if s.capacity.isSome then s.notFull.notify wake else s.notFull
      taken := s.taken ++ [(consumer, x)] } := by
  simp only [take, hq]

/-- The calls that the threads have made. -/
def putCalls (es : List (Event T)) : List (Put T) :=
  es.filterMap fun
    | .put call _ => some call
    | _ => none

def takeCalls (es : List (Event T)) : List Nat :=
  es.filterMap fun
    | .take consumer _ => some consumer
    | _ => none

/-- A thread that has been woken goes on. -/
def Resumes : Event T → Prop
  | .reput .. | .retake .. => True
  | _ => False

/-- No thread has been woken and not yet gone on. -/
def AtRest (s : BlockingQueue T) : Prop := s.notEmpty.woken = [] ∧ s.notFull.woken = []

end BlockingQueue

end Muduo.Base
