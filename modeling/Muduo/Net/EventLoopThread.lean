import Muduo.Lib.Condition
import Muduo.Lib.Settling
import Muduo.Net.EventLoop

namespace Muduo.Net
open Muduo.Lib

/-- Where the new thread is in `threadFunc`: in the constructor of `loop` or in `callback_`,
behind its critical section, from `loop.loop()` on, behind `loop_ = NULL`, or behind the
destructor of `loop`. -/
inductive ThreadFunc
  | unborn
  | initializing
  | entering
  | looping
  | cleared
  | finished
  deriving DecidableEq

/-- Where the thread that owns an `EventLoopThread` is: before `startLoop`; in it, about to lock
the mutex, in `cond_.wait()`, or about to read `loop_`; behind it, with what it returned; in the
destructor, behind the test of `loop_`, in `quit()` before its `wakeup()`, or in `thread_.join()`;
or behind the destructor. -/
inductive Holder
  | outside
  | locking
  | waiting
  | unlocked
  | ready (loop : Bool)
  | testing
  | quitting
  | joining
  | gone
  deriving DecidableEq

def ThreadFunc.after {F : Type} (f : ThreadFunc) : EventLoop.Event F → ThreadFunc
  | .enterLoop => .looping
  | _ => f

/-- The events of a loop are those of its own thread and of the threads that use it. -/
def EventLoop.Event.thread {F : Type} : EventLoop.Event F → Thread
  | .queueInLoop t _ | .runInLoop t _ | .quit t | .finishCall t => t
  | .enterLoop | .pollReturns _ | .proceed => .loop

/-- `loopSet` says that `loop_` is not null; `loop` is the variable of `threadFunc`. -/
structure EventLoopThread (F : Type) where
  started : Bool
  exiting : Bool
  loopSet : Bool
  cond : Condition Nat
  owner : Holder
  func : ThreadFunc
  loop : EventLoop F

namespace EventLoopThread

variable {F : Type}

def initial : EventLoopThread F where
  started := false
  exiting := false
  loopSet := false
  cond := .empty
  owner := .outside
  func := .unborn
  loop := .initial

/-- The owner, among the threads that use the loop. -/
def me : Thread := .other 0

/-- `startLoop` up to the return of `thread_.start()`. -/
def startLoop (s : EventLoopThread F) : Except Fault (EventLoopThread F) := do
  check (s.started = false)
  .ok { s with started := true, owner := .locking, func := .initializing }

/-- `while (loop_ == NULL)`, with the mutex locked. -/
def await (s : EventLoopThread F) : EventLoopThread F :=
  if s.loopSet then { s with owner := .unlocked }
  else { s with cond := s.cond.wait 0, owner := .waiting }

/-- The critical section of `threadFunc`. -/
def publish (s : EventLoopThread F) (wake : Option Nat) : EventLoopThread F :=
  { s with loopSet := true, cond := s.cond.notify wake, func := .entering }

/-- The head of the destructor. -/
def destroy (s : EventLoopThread F) : EventLoopThread F :=
  { s with exiting := true, owner := if s.loopSet then .testing else .gone }

/-- A use of the loop through `loop_`. -/
def deref (s : EventLoopThread F) : Except Fault Unit :=
  if s.loopSet = false ∨ s.func = .finished then .error .useAfterFree else .ok ()

/-- `loop_->quit()` up to its `wakeup()`. -/
def quit (s : EventLoopThread F) : Except Fault (EventLoopThread F) := do
  s.deref
  .ok { s with loop := s.loop.setQuit me, owner := .quitting }

/-- The `wakeup()` at the end of `quit()`, on the loop that `loop_` pointed to. -/
def wakeup (s : EventLoopThread F) : Except Fault (EventLoopThread F) :=
  if s.func = .finished then .error .useAfterFree
  else .ok { s with loop := s.loop.finishCall me, owner := .joining }

inductive Event (F : Type)
  | startLoop
  | lock
  | relock
  | rouse
  | readLoop
  | destroy
  | quit
  | wakeup
  | joinReturns
  | publish (wake : Option Nat)
  | loop (e : EventLoop.Event F)
  | clear
  | destruct

/-- Where code runs on the loop's own thread, or on another that has been given the loop. -/
def uses (s : EventLoopThread F) (e : EventLoop.Event F) : Prop :=
  match e.thread with
  | .other _ => s.owner = .ready true
  | .loop =>
    match e with
    | .enterLoop => s.func = .entering
    | _ => s.func = .initializing ∨ s.func = .looping ∧ s.loop.place ≠ .stopped

/-- The owner starts the loop once, nobody but its destructor quits it, and no other thread is
in a call when that begins. -/
def enabled (s : EventLoopThread F) : Event F → Prop
  | .startLoop => s.owner = .outside
  | .lock => s.owner = .locking
  | .relock => s.owner = .waiting ∧ s.cond.Woken 0
  | .rouse => 0 ∈ s.cond.waiting
  | .readLoop => s.owner = .unlocked
  | .destroy =>
    (s.owner = .outside ∨ ∃ loop, s.owner = .ready loop) ∧
      ∀ tid, s.loop.threads (.other tid) = .outside
  | .quit => s.owner = .testing
  | .wakeup => s.owner = .quitting
  | .joinReturns => s.owner = .joining ∧ s.func = .finished
  | .publish wake => s.func = .initializing ∧ s.cond.MayWake wake
  | .loop e => s.uses e ∧ EventLoop.machine.enabled s.loop e ∧ ∀ t, e ≠ .quit t
  | .clear => s.func = .looping ∧ s.loop.place = .stopped
  | .destruct => s.func = .cleared

def step (s : EventLoopThread F) : Event F → Except Fault (EventLoopThread F)
  | .startLoop => s.startLoop
  | .lock => .ok s.await
  | .relock => .ok { s with cond := s.cond.resume 0 }.await
  | .rouse => .ok { s with cond := s.cond.rouse 0 }
  | .readLoop => .ok { s with owner := .ready s.loopSet }
  | .destroy => .ok s.destroy
  | .quit => s.quit
  | .wakeup => s.wakeup
  | .joinReturns => .ok { s with owner := .gone }
  | .publish wake => .ok (s.publish wake)
  | .loop e => do
    let loop ← EventLoop.machine.step s.loop e
    .ok { s with loop := loop, func := s.func.after e }
  | .clear => .ok { s with loopSet := false, func := .cleared }
  | .destruct => .ok { s with func := .finished }

def machine (F : Type) : Machine (EventLoopThread F) (Event F) Fault where
  enabled := enabled
  step := step

/-- The destructor has called `quit()`. -/
def Quitting (s : EventLoopThread F) : Prop := s.owner = .quitting ∨ s.owner = .joining

/-- The `quit()` of the destructor comes when `loop()` has begun, and the loop lives until the
`wakeup()` in it. -/
def InTime (s : EventLoopThread F) : Event F → Prop
  | .quit => s.func ≠ .entering
  | .destruct => s.owner ≠ .quitting
  | _ => True

end EventLoopThread

end Muduo.Net
