import Mathlib.Data.Prod.Lex
import Muduo.Lib.OrderedSet
import Muduo.Net.Basic

namespace Muduo.Net
open Muduo.Lib

/-- Microseconds since the epoch. The field is an `int64_t`; what is computed of two of them
goes through `int64`. -/
abbrev Timestamp := Int

/-- The values of an `int64_t`. -/
abbrev FitsInt64 (i : Int) : Prop := -2 ^ 63 ≤ i ∧ i < 2 ^ 63

/-- The `int64_t` that a sum or a difference of two comes out as: too large a one wraps around. -/
@[irreducible] def int64 (i : Int) : Int := Word.toSigned 64 (Word.ofSigned 64 i)

theorem int64_of_fits {i : Int} (h : FitsInt64 i) : int64 i = i := by
  rw [int64]
  exact Word.toSigned_ofSigned 64 (by omega) (by omega)

theorem int64_of_over {i : Int} (h : 2 ^ 63 ≤ i) (h' : i < 2 ^ 63 + 2 ^ 64) :
    int64 i = i - 2 ^ 64 := by
  have hmod : i % 2 ^ 64 = (i - 2 ^ 64) % 2 ^ 64 := (Int.sub_emod_right i (2 ^ 64)).symm
  have hwrap : int64 i = int64 (i - 2 ^ 64) := by
    rw [int64, int64, Word.ofSigned, Word.ofSigned, hmod]
  rw [hwrap, int64_of_fits ⟨by omega, by omega⟩]

namespace Timestamp

def invalid : Timestamp := 0

abbrev valid (t : Timestamp) : Prop := 0 < t

/-- `addTime`, with the seconds already turned into microseconds. -/
def addTime (t : Timestamp) (delta : Int) : Timestamp := int64 (t + delta)

/-- Behind the end of the `int64_t`s a time starts again at their beginning. -/
theorem addTime_eq {t delta : Int} (ht : FitsInt64 t) (h : 0 ≤ delta) (h' : delta < 2 ^ 63) :
    addTime t delta = if t + delta < 2 ^ 63 then t + delta else t + delta - 2 ^ 64 := by
  unfold addTime
  split
  · exact int64_of_fits ⟨by omega, by omega⟩
  · exact int64_of_over (by omega) (by omega)

end Timestamp

abbrev Addr := Nat

def uintptrMax : Addr := 2 ^ 64 - 1

/-- `repeats` is `interval_ > 0.0`, and `interval` the microseconds that `addTime` makes
of `interval_`. -/
structure Timer where
  expiration : Timestamp
  interval : Int
  repeats : Bool
  sequence : Nat
  deriving DecidableEq

def Timer.restart (t : Timer) (now : Timestamp) : Timer :=
  if t.repeats then { t with expiration := now.addTime t.interval }
  else { t with expiration := .invalid }

@[simp] theorem Timer.restart_sequence (t : Timer) (now : Timestamp) :
    (t.restart now).sequence = t.sequence := by
  unfold Timer.restart
  split <;> rfl

@[simp] theorem Timer.restart_repeats (t : Timer) (now : Timestamp) :
    (t.restart now).repeats = t.repeats := by
  unfold Timer.restart
  split <;> rfl

structure TimerId where
  timer : Addr
  sequence : Nat
  deriving DecidableEq

/-- `std::pair<Timestamp, Timer*>`. -/
@[ext] structure Entry where
  expiration : Timestamp
  timer : Addr

/-- `std::pair<Timer*, int64_t>`. -/
@[ext] structure ActiveTimer where
  timer : Addr
  sequence : Nat

instance : LinearOrder Entry :=
  LinearOrder.lift' (fun e => toLex (e.expiration, e.timer)) fun a b h => by
    have hp := toLex.injective h
    exact Entry.ext (congrArg Prod.fst hp) (congrArg Prod.snd hp)

instance : LinearOrder ActiveTimer :=
  LinearOrder.lift' (fun a => toLex (a.timer, a.sequence)) fun a b h => by
    have hp := toLex.injective h
    exact ActiveTimer.ext (congrArg Prod.fst hp) (congrArg Prod.snd hp)

theorem Entry.lt_iff {a b : Entry} :
    a < b ↔ a.expiration < b.expiration ∨ a.expiration = b.expiration ∧ a.timer < b.timer :=
  Prod.Lex.toLex_lt_toLex

/-- With no timer at the maximal address, what comes before the sentry has expired. -/
theorem Entry.lt_sentry {e : Entry} {now : Timestamp} (h : e.timer < uintptrMax) :
    e < ⟨now, uintptrMax⟩ ↔ e.expiration ≤ now := by
  rw [Entry.lt_iff]
  constructor
  · rintro (hlt | ⟨heq, -⟩)
    · exact le_of_lt hlt
    · exact le_of_eq heq
  · intro hle
    rcases lt_or_eq_of_le hle with hlt | heq
    · exact .inl hlt
    · exact .inr ⟨heq, h⟩

/-- A one-shot timerfd: `since` is the time at which it was armed. -/
inductive Timerfd
  | disarmed
  | armed (deadline since : Timestamp)
  | expired
  deriving DecidableEq

namespace Timerfd

def kMicroSecondsPerSecond : Int := 1000 * 1000

/-- Seconds and nanoseconds. -/
def howMuchTimeFromNow (when now : Timestamp) : Int × Int :=
  let microseconds := int64 (when - now)
  let microseconds := if microseconds < 100 then 100 else microseconds
  (microseconds.tdiv kMicroSecondsPerSecond, microseconds.tmod kMicroSecondsPerSecond * 1000)

def resetTimerfd (expiration now : Timestamp) : Timerfd :=
  let (seconds, nanoseconds) := howMuchTimeFromNow expiration now
  .armed (now + seconds * kMicroSecondsPerSecond + nanoseconds.tdiv 1000) now

def readTimerfd : Timerfd → Timerfd
  | .expired => .disarmed
  | fd => fd

/-- What the kernel does as the clock reads `now`. -/
def elapse (now : Timestamp) : Timerfd → Timerfd
  | .armed deadline since => if deadline ≤ now then .expired else .armed deadline since
  | fd => fd

end Timerfd

/-- A `delete` of a timer, and which of the two sets still had an entry for it. -/
structure Freed where
  sequence : Nat
  inTimers : Bool
  inActiveTimers : Bool
  deriving DecidableEq

/-- `heap` holds the `Timer` objects that are alive, `numCreated` is `Timer::s_numCreated_`,
`clock` what `Timestamp::now()` reads; `freed` is the history of the `delete`s. -/
structure TimerQueue where
  heap : Addr → Option Timer
  numCreated : Nat
  clock : Timestamp
  timerfd : Timerfd
  timers : OrderedSet Entry
  activeTimers : OrderedSet ActiveTimer
  callingExpiredTimers : Bool
  cancelingTimers : OrderedSet ActiveTimer
  freed : List Freed

namespace TimerQueue

def initial : TimerQueue where
  heap _ := none
  numCreated := 0
  clock := 0
  timerfd := .disarmed
  timers := .empty
  activeTimers := .empty
  callingExpiredTimers := false
  cancelingTimers := .empty
  freed := []

/-- `timer->`. -/
def deref (q : TimerQueue) (timer : Addr) : Except Fault Timer :=
  match q.heap timer with
  | some t => .ok t
  | none => .error .useAfterFree

/-- `delete timer`. -/
def delete (q : TimerQueue) (timer : Addr) : Except Fault TimerQueue := do
  let t ← q.deref timer
  let freed : Freed :=
    { sequence := t.sequence
      inTimers := q.timers.elems.any (·.timer = timer)
      inActiveTimers := q.activeTimers.elems.any (·.timer = timer) }
  .ok { q with heap := Function.update q.heap timer none, freed := q.freed ++ [freed] }

/-- `new Timer(cb, when, interval)` in `addTimer`, at an address the allocator picks. -/
def newTimer (q : TimerQueue) (timer : Addr) (when : Timestamp) (interval : Int)
    (repeats : Bool) : TimerQueue :=
  let t : Timer :=
    { expiration := when, interval := interval, repeats := repeats,
      sequence := q.numCreated + 1 }
  { q with heap := Function.update q.heap timer (some t), numCreated := q.numCreated + 1 }

/-- Whether a timer for `when` expires before all others. -/
def earliestChanged (q : TimerQueue) (when : Timestamp) : Bool :=
  match q.timers.elems with
  | [] => true
  | e :: _ => decide (when < e.expiration)

def insert (q : TimerQueue) (timer : Addr) : Except Fault (Bool × TimerQueue) := do
  check (q.timers.size = q.activeTimers.size)
  let t ← q.deref timer
  let when := t.expiration
  let earliestChanged := q.earliestChanged when
  check (⟨when, timer⟩ ∉ q.timers)
  let q := { q with timers := q.timers.insert ⟨when, timer⟩ }
  check (⟨timer, t.sequence⟩ ∉ q.activeTimers)
  let q := { q with activeTimers := q.activeTimers.insert ⟨timer, t.sequence⟩ }
  check (q.timers.size = q.activeTimers.size)
  .ok (earliestChanged, q)

def addTimerInLoop (q : TimerQueue) (timer : Addr) : Except Fault TimerQueue := do
  let (earliestChanged, q) ← q.insert timer
  if earliestChanged then
    let t ← q.deref timer
    .ok { q with timerfd := .resetTimerfd t.expiration q.clock }
  else .ok q

/-- The branch of `cancelInLoop` for a timer that is in the sets. -/
def cancelActive (q : TimerQueue) (timer : ActiveTimer) : Except Fault TimerQueue := do
  let t ← q.deref timer.timer
  check (⟨t.expiration, timer.timer⟩ ∈ q.timers)
  let q := { q with timers := q.timers.erase ⟨t.expiration, timer.timer⟩ }
  let q ← q.delete timer.timer
  .ok { q with activeTimers := q.activeTimers.erase timer }

def cancelInLoop (q : TimerQueue) (timerId : TimerId) : Except Fault TimerQueue := do
  check (q.timers.size = q.activeTimers.size)
  let timer : ActiveTimer := ⟨timerId.timer, timerId.sequence⟩
  let q ←
    if timer ∈ q.activeTimers then q.cancelActive timer
    else if q.callingExpiredTimers then
      .ok { q with cancelingTimers := q.cancelingTimers.insert timer }
    else .ok q
  check (q.timers.size = q.activeTimers.size)
  .ok q

/-- The loop of `getExpired` that takes the expired timers out of `activeTimers_`. -/
def deactivate (q : TimerQueue) : List Entry → Except Fault TimerQueue
  | [] => .ok q
  | e :: es => do
    let t ← q.deref e.timer
    check (⟨e.timer, t.sequence⟩ ∈ q.activeTimers)
    deactivate { q with activeTimers := q.activeTimers.erase ⟨e.timer, t.sequence⟩ } es

def getExpired (q : TimerQueue) (now : Timestamp) : Except Fault (List Entry × TimerQueue) := do
  check (q.timers.size = q.activeTimers.size)
  let sentry : Entry := ⟨now, uintptrMax⟩
  check (∀ e ∈ (q.timers.above sentry).elems.head?, now < e.expiration)
  let expired := q.timers.below sentry
  let q := { q with timers := q.timers.above sentry }
  let q ← q.deactivate expired
  check (q.timers.size = q.activeTimers.size)
  .ok (expired, q)

/-- `handleRead` up to its loop of callbacks. -/
def beginRead (q : TimerQueue) : Except Fault (List Entry × TimerQueue) := do
  let now := q.clock
  let q := { q with timerfd := q.timerfd.readTimerfd }
  let (expired, q) ← q.getExpired now
  .ok (expired, { q with callingExpiredTimers := true, cancelingTimers := .empty })

/-- One turn of the loop in `reset`. -/
def resetOne (q : TimerQueue) (now : Timestamp) (e : Entry) : Except Fault TimerQueue := do
  let t ← q.deref e.timer
  if t.repeats ∧ ⟨e.timer, t.sequence⟩ ∉ q.cancelingTimers then
    let q := { q with heap := Function.update q.heap e.timer (some (t.restart now)) }
    let (_, q) ← q.insert e.timer
    .ok q
  else q.delete e.timer

/-- The expiration of the first timer, or none that is valid. -/
def nextExpire (q : TimerQueue) : Except Fault Timestamp :=
  match q.timers.elems with
  | [] => .ok .invalid
  | e :: _ => do
    let t ← q.deref e.timer
    .ok t.expiration

def reset (q : TimerQueue) (expired : List Entry) (now : Timestamp) :
    Except Fault TimerQueue := do
  let q ← expired.foldlM (fun q e => q.resetOne now e) q
  let nextExpire ← q.nextExpire
  if nextExpire.valid then .ok { q with timerfd := .resetTimerfd nextExpire q.clock }
  else .ok q

/-- `handleRead` behind its loop of callbacks. -/
def endRead (q : TimerQueue) (expired : List Entry) (now : Timestamp) :
    Except Fault TimerQueue :=
  { q with callingExpiredTimers := false }.reset expired now

end TimerQueue

/-- A `handleRead` in the middle of its callbacks. -/
structure Expiry where
  now : Timestamp
  ran : List Entry
  rest : List Entry

def Expiry.expired (b : Expiry) : List Entry := b.ran ++ b.rest

/-- What the caller of `addTimer` knows about a timer. -/
structure Created where
  id : TimerId
  when : Timestamp
  repeats : Bool
  deriving DecidableEq

/-- A timer queue with the timers that wait for their `addTimerInLoop`, the `handleRead` that
is executing, and the history: which timers were created, inserted, cancelled, which had
expired when some `handleRead` started, and which callbacks ran. -/
structure TimerRun where
  queue : TimerQueue
  waiting : List Addr
  expiry : Option Expiry
  created : List Created
  inserted : List Nat
  cancelled : List TimerId
  due : List Nat
  ran : List Nat

namespace TimerRun

def initial : TimerRun where
  queue := .initial
  waiting := []
  expiry := none
  created := []
  inserted := []
  cancelled := []
  due := []
  ran := []

/-- What callers, callbacks, the clock and the loop may do next. Callbacks add and cancel
between one `runNext` and the next. -/
inductive Event
  | newTimer (timer : Addr) (when : Timestamp) (interval : Int) (repeats : Bool)
  | addTimerInLoop (timer : Addr)
  | cancelInLoop (timerId : TimerId)
  | setClock (now : Timestamp)
  | timerfdExpires
  | beginRead
  | runNext
  | endRead

def enabled (s : TimerRun) : Event → Prop
  | .newTimer timer _ _ _ => s.queue.heap timer = none ∧ timer < uintptrMax
  | .addTimerInLoop timer => timer ∈ s.waiting
  | .cancelInLoop timerId => timerId ∈ s.created.map Created.id
  | .setClock _ => True
  | .timerfdExpires => True
  | .beginRead => s.expiry = none
  | .runNext => ∃ b ∈ s.expiry, b.rest ≠ []
  | .endRead => ∃ b ∈ s.expiry, b.rest = []

def addTimer (s : TimerRun) (timer : Addr) (when : Timestamp) (interval : Int)
    (repeats : Bool) : TimerRun :=
  { s with
    queue := s.queue.newTimer timer when interval repeats
    waiting := s.waiting ++ [timer]
    created := s.created ++ [⟨⟨timer, s.queue.numCreated + 1⟩, when, repeats⟩] }

def addTimerInLoop (s : TimerRun) (timer : Addr) : Except Fault TimerRun := do
  let queue ← s.queue.addTimerInLoop timer
  let t ← queue.deref timer
  .ok { s with
    queue := queue
    waiting := s.waiting.erase timer
    inserted := s.inserted ++ [t.sequence] }

def cancelInLoop (s : TimerRun) (timerId : TimerId) : Except Fault TimerRun := do
  let queue ← s.queue.cancelInLoop timerId
  .ok { s with queue := queue, cancelled := s.cancelled ++ [timerId] }

def beginRead (s : TimerRun) : Except Fault TimerRun := do
  let now := s.queue.clock
  let (expired, queue) ← s.queue.beginRead
  let due := s.created.filter fun c => c.id.sequence ∈ s.inserted ∧ c.when ≤ now
  .ok { s with
    queue := queue
    expiry := some { now := now, ran := [], rest := expired }
    due := s.due ++ due.map (·.id.sequence) }

/-- `it->second->run()`. -/
def runNext (s : TimerRun) (b : Expiry) (e : Entry) (rest : List Entry) :
    Except Fault TimerRun := do
  let t ← s.queue.deref e.timer
  .ok { s with
    expiry := some { b with ran := b.ran ++ [e], rest := rest }
    ran := s.ran ++ [t.sequence] }

def endRead (s : TimerRun) (b : Expiry) : Except Fault TimerRun := do
  let queue ← s.queue.endRead b.expired b.now
  .ok { s with queue := queue, expiry := none }

def step (s : TimerRun) : Event → Except Fault TimerRun
  | .newTimer timer when interval repeats => .ok (s.addTimer timer when interval repeats)
  | .addTimerInLoop timer => s.addTimerInLoop timer
  | .cancelInLoop timerId => s.cancelInLoop timerId
  | .setClock now =>
    let queue := { s.queue with clock := now, timerfd := s.queue.timerfd.elapse now }
    .ok { s with queue := queue }
  | .timerfdExpires => .ok { s with queue := { s.queue with timerfd := .expired } }
  | .beginRead => s.beginRead
  | .runNext =>
    match s.expiry with
    | some b =>
      match b.rest with
      | e :: rest => s.runNext b e rest
      | [] => .ok s
    | none => .ok s
  | .endRead =>
    match s.expiry with
    | some b => s.endRead b
    | none => .ok s

def machine : Machine TimerRun Event Fault where
  enabled := enabled
  step := step

end TimerRun

end Muduo.Net
