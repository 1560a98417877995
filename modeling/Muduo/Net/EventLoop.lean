import Mathlib.Logic.Function.Basic
import Muduo.Net.Basic

namespace Muduo.Net
open Muduo.Lib

/-- The channels of a loop, as far as the loop itself tells them apart. -/
inductive LoopChannel
  | wakeup
  | other (fd : Nat)
  deriving DecidableEq

inductive Thread
  | loop
  | other (tid : Nat)
  deriving DecidableEq

def Thread.isInLoopThread (t : Thread) : Bool := t = .loop

/-- Where a thread stands: about to call `wakeup()` at the end of `queueInLoop`, or at the end
of `quit`, or in neither. -/
inductive Stand
  | outside
  | pushed
  | quitting
  deriving DecidableEq

/-- Where the loop thread is in `loop()`; `running functors i` has made the calls before `i`. -/
inductive Place (F : Type)
  | stopped
  | test
  | poll
  | handling (rest : List LoopChannel)
  | swapping
  | running (functors : List F) (i : Nat)
  deriving DecidableEq

/-- The largest count an eventfd takes. -/
def maxEventfd : Nat := 2 ^ 64 - 2

/-- `wakeupFd` is the count of the eventfd; `pushes` and `executed` are the history of
`pendingFunctors_.push_back` and of the calls in `doPendingFunctors`. -/
structure EventLoop (F : Type) where
  looping : Bool
  quit : Bool
  eventHandling : Bool
  callingPendingFunctors : Bool
  iteration : Nat
  wakeupFd : Nat
  activeChannels : List LoopChannel
  currentActiveChannel : Option LoopChannel
  pendingFunctors : List F
  place : Place F
  threads : Thread → Stand
  pushes : List F
  executed : List F

namespace EventLoop

variable {F : Type}

def initial : EventLoop F where
  looping := false
  quit := false
  eventHandling := false
  callingPendingFunctors := false
  iteration := 0
  wakeupFd := 0
  activeChannels := []
  currentActiveChannel := none
  pendingFunctors := []
  place := .stopped
  threads _ := .outside
  pushes := []
  executed := []

/-- `eventfd` is non-blocking: a write that does not fit is given up. -/
def wakeup (s : EventLoop F) : EventLoop F :=
  { s with wakeupFd := if s.wakeupFd + 1 ≤ maxEventfd then s.wakeupFd + 1 else s.wakeupFd }

def handleRead (s : EventLoop F) : EventLoop F := { s with wakeupFd := 0 }

/-- `queueInLoop` up to its `wakeup()`, if it makes one. -/
def queueInLoop (s : EventLoop F) (t : Thread) (cb : F) : EventLoop F :=
  let s := { s with
    pendingFunctors := s.pendingFunctors ++ [cb]
    pushes := s.pushes ++ [cb] }
  if !t.isInLoopThread || s.callingPendingFunctors then
    { s with threads := Function.update s.threads t .pushed }
  else s

/-- On the loop thread `cb` runs at once; what it does are steps of the loop thread. -/
def runInLoop (s : EventLoop F) (t : Thread) (cb : F) : EventLoop F :=
  if t.isInLoopThread then s else s.queueInLoop t cb

/-- `quit` up to its `wakeup()`. -/
def setQuit (s : EventLoop F) (t : Thread) : EventLoop F :=
  let s := { s with quit := true }
  if !t.isInLoopThread then { s with threads := Function.update s.threads t .quitting } else s

/-- The `wakeup()` that a thread is about to make. -/
def finishCall (s : EventLoop F) (t : Thread) : EventLoop F :=
  { s.wakeup with threads := Function.update s.threads t .outside }

/-- The head of `loop()`. -/
def enterLoop (s : EventLoop F) : Except Fault (EventLoop F) := do
  check (s.looping = false)
  .ok { s with looping := true, quit := false, place := .test }

/-- `while (!quit_)`. -/
def testQuit (s : EventLoop F) : EventLoop F :=
  if s.quit then { s with looping := false, place := .stopped }
  else { s with activeChannels := [], place := .poll }

def pollReturns (s : EventLoop F) (active : List LoopChannel) : EventLoop F :=
  { s with
    activeChannels := active
    iteration := s.iteration + 1
    eventHandling := true
    place := .handling active }

/-- One turn of the loop over `activeChannels_`; behind it, the head of `doPendingFunctors`. -/
def handleNext (s : EventLoop F) : List LoopChannel → EventLoop F
  | [] =>
    { s with
      currentActiveChannel := none
      eventHandling := false
      callingPendingFunctors := true
      place := .swapping }
  | channel :: rest =>
    let s := { s with currentActiveChannel := some channel, place := .handling rest }
    match channel with
    | .wakeup => s.handleRead
    | .other _ => s

def swapFunctors (s : EventLoop F) : EventLoop F :=
  { s with pendingFunctors := [], place := .running s.pendingFunctors 0 }

/-- One turn of the loop over `functors`. -/
def callNext (s : EventLoop F) (functors : List F) (i : Nat) : EventLoop F :=
  match functors[i]? with
  | some f => { s with executed := s.executed ++ [f], place := .running functors (i + 1) }
  | none => { s with callingPendingFunctors := false, place := .test }

/-- The part of the current batch that has not been called yet. -/
def tail (s : EventLoop F) : List F :=
  match s.place with
  | .running functors i => functors.drop i
  | _ => []

/-- The loop thread is before or after `loop()`, in a handler or in a functor. -/
def atUserCode (s : EventLoop F) : Bool :=
  match s.place with
  | .stopped => true
  | .handling _ =>
    match s.currentActiveChannel with
    | some (.other _) => true
    | _ => false
  | .running _ i => decide (0 < i)
  | _ => false

/-- Code of the loop's user runs on a thread, so that it may make a call. -/
def inUserCode (s : EventLoop F) : Thread → Prop
  | .other tid => s.threads (.other tid) = .outside
  | .loop => s.threads .loop = .outside ∧ s.atUserCode = true

inductive Event (F : Type)
  | queueInLoop (t : Thread) (cb : F)
  | runInLoop (t : Thread) (cb : F)
  | quit (t : Thread)
  | finishCall (t : Thread)
  | enterLoop
  | pollReturns (active : List LoopChannel)
  | proceed

/-- `poll` reports the wake-up channel only when the eventfd is readable, though it may leave
it out when there are too many others. -/
def enabled (s : EventLoop F) : Event F → Prop
  | .queueInLoop t _ => s.inUserCode t
  | .runInLoop t _ => s.inUserCode t
  | .quit t => s.inUserCode t
  | .finishCall t => s.threads t ≠ .outside
  | .enterLoop => s.threads .loop = .outside ∧ s.place = .stopped
  | .pollReturns active => s.place = .poll ∧ (.wakeup ∈ active → 0 < s.wakeupFd)
  | .proceed => s.threads .loop = .outside ∧ s.place ≠ .stopped ∧ s.place ≠ .poll

def step (s : EventLoop F) : Event F → Except Fault (EventLoop F)
  | .queueInLoop t cb => .ok (s.queueInLoop t cb)
  | .runInLoop t cb => .ok (s.runInLoop t cb)
  | .quit t => .ok (s.setQuit t)
  | .finishCall t => .ok (s.finishCall t)
  | .enterLoop => s.enterLoop
  | .pollReturns active => .ok (s.pollReturns active)
  | .proceed =>
    match s.place with
    | .test => .ok s.testQuit
    | .handling rest => .ok (s.handleNext rest)
    | .swapping => .ok s.swapFunctors
    | .running functors i => .ok (s.callNext functors i)
    | .stopped | .poll => .ok s

def machine : Machine (EventLoop F) (Event F) Fault where
  enabled := enabled
  step := step

end EventLoop

end Muduo.Net
