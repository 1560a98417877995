import Mathlib.Logic.Function.Basic
import Muduo.Net.Basic

namespace Muduo.Examples
open Muduo.Lib Muduo.Net

/-- Arithmetic on `size_t`, which wraps around. -/
structure CircularIndex where
  index : Nat
  max : Nat
  deriving DecidableEq, Repr

namespace CircularIndex

def add (i : CircularIndex) (value : Nat) : CircularIndex :=
  { i with index := Word.add 64 i.index value % i.max }

def sub (i : CircularIndex) (value : Nat) : CircularIndex :=
  { i with index := Word.add 64 (Word.sub 64 i.index value % i.max) i.max % i.max }

def inc (i : CircularIndex) : CircularIndex := i.add 1
def dec (i : CircularIndex) : CircularIndex := i.sub 1

def get (i : CircularIndex) : Nat := i.index
def getInc (i : CircularIndex) : Nat := Word.add 64 i.index 1 % i.max
def getDec (i : CircularIndex) : Nat :=
  Word.add 64 (Word.sub 64 i.index 1 % i.max) i.max % i.max

end CircularIndex

/-- `wheelMap` holds the pairs of a bucket index and an entry in that bucket. `add` makes one
`Entry` for each connection, so an entry goes by its connection. -/
structure TimingWheel (C : Type) where
  maxIdleTimeSecond : Nat
  tail : CircularIndex
  wheelMap : List (Nat × C)

namespace TimingWheel

variable {C : Type} [DecidableEq C] (w : TimingWheel C) (conn : C)

def new (C : Type) (maxIdleTimeSecond : Nat) : TimingWheel C where
  maxIdleTimeSecond := maxIdleTimeSecond
  tail := ⟨Word.sub 64 maxIdleTimeSecond 1, maxIdleTimeSecond⟩
  wheelMap := []

def insert (i : Nat) (entry : C) : TimingWheel C := { w with wheelMap := (i, entry) :: w.wheelMap }

/-- Some bucket still holds the entry, so that `weakEntryPtr.lock()` finds it. -/
def alive (entry : C) : Bool := w.wheelMap.any (·.2 = entry)

def add (connected : Bool) : TimingWheel C :=
  if connected then w.insert w.tail.get conn else w

def update (connected : Bool) (lastUpdate : Nat) : Nat × TimingWheel C :=
  if !connected then (0, w)
  else
    let res := w.tail.get
    if lastUpdate = res then (res, w)
    else if w.alive conn then (res, w.insert w.tail.get conn)
    else (res, w)

/-- `onTimer`, with the entries that are destroyed with the bucket. -/
def onTimer : TimingWheel C × List C :=
  let kept := { w with
    tail := w.tail.dec
    wheelMap := w.wheelMap.filter (·.1 ≠ w.tail.getDec) }
  let erased := w.wheelMap.filter (·.1 = w.tail.getDec)
  (kept, (erased.map Prod.snd).filter fun entry => !kept.alive entry)

end TimingWheel

inductive Phase
  | unborn
  | connected
  | disconnecting
  | closed
  deriving DecidableEq, Repr

/-- The server with its connections, and the history: how often the timer ticked, the tick
after which each connection was last active, and the shutdowns with the tick that made them. -/
structure DiscardServer (C : Type) where
  timeWheel : TimingWheel C
  lastUpdate : Nat
  phase : C → Phase
  ticks : Nat
  lastActive : C → Nat
  shutdowns : List (C × Nat)

namespace DiscardServer

variable {C : Type} [DecidableEq C] (s : DiscardServer C) (conn : C)

def new (C : Type) (maxIdleTimeSecond : Nat) : DiscardServer C where
  timeWheel := .new C maxIdleTimeSecond
  lastUpdate := 0
  phase _ := .unborn
  ticks := 0
  lastActive _ := 0
  shutdowns := []

def connected : Bool := s.phase conn = .connected

def onConnectionUp : DiscardServer C :=
  let s := { s with
    phase := Function.update s.phase conn .connected
    lastActive := Function.update s.lastActive conn s.ticks }
  { s with timeWheel := s.timeWheel.add conn (s.connected conn) }

def onConnectionDown : DiscardServer C :=
  { s with phase := Function.update s.phase conn .closed }

/-- A connection that is shut down may still receive messages. -/
def onMessage : DiscardServer C :=
  let (lastUpdate, timeWheel) := s.timeWheel.update conn (s.connected conn) s.lastUpdate
  { s with
    lastUpdate := lastUpdate
    timeWheel := timeWheel
    lastActive :=
      if s.connected conn then Function.update s.lastActive conn s.ticks else s.lastActive }

/-- `conn->shutdown()` in `~Entry`. -/
def shutdown (tick : Nat) (s : DiscardServer C) (conn : C) : DiscardServer C :=
  if s.connected conn then
    { s with
      phase := Function.update s.phase conn .disconnecting
      shutdowns := s.shutdowns ++ [(conn, tick)] }
  else s

def onTimer : DiscardServer C :=
  let (timeWheel, destroyed) := s.timeWheel.onTimer
  let s := { s with timeWheel := timeWheel, ticks := s.ticks + 1 }
  destroyed.foldl (shutdown s.ticks) s

inductive Event (C : Type)
  | up (conn : C)
  | message (conn : C)
  | down (conn : C)
  | tick
  deriving DecidableEq

def enabled : Event C → Prop
  | .up conn => s.phase conn = .unborn
  | .message conn => s.phase conn = .connected ∨ s.phase conn = .disconnecting
  | .down conn => s.phase conn = .connected ∨ s.phase conn = .disconnecting
  | .tick => True

def step : Event C → Except Fault (DiscardServer C)
  | .up conn => .ok (s.onConnectionUp conn)
  | .message conn => .ok (s.onMessage conn)
  | .down conn => .ok (s.onConnectionDown conn)
  | .tick => .ok s.onTimer

def machine (C : Type) [DecidableEq C] : Machine (DiscardServer C) (Event C) Fault where
  enabled := enabled
  step := step

instance (s : DiscardServer C) : ∀ e, Decidable ((machine C).enabled s e)
  | .up conn => inferInstanceAs (Decidable (s.phase conn = .unborn))
  | .message conn =>
    inferInstanceAs (Decidable (s.phase conn = .connected ∨ s.phase conn = .disconnecting))
  | .down conn =>
    inferInstanceAs (Decidable (s.phase conn = .connected ∨ s.phase conn = .disconnecting))
  | .tick => isTrue trivial

end DiscardServer

end Muduo.Examples
