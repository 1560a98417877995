import Mathlib.Logic.Function.Basic
import Muduo.Net.Channel

namespace Muduo.Net.Pollers
open Muduo.Lib

variable {C : Type} [DecidableEq C]

/-- `EPollPoller` with the `index_` it keeps in each channel; `kernel` is the interest set. -/
structure EPollPoller (C : Type) where
  index : C → Index
  channels : Nat → Option C
  kernel : Nat → Option Events

namespace EPollPoller

variable (p : EPollPoller C) (fd : C → Nat) (events : C → Events) (channel : C)

def initial (C : Type) : EPollPoller C := ⟨fun _ => .kNew, fun _ => none, fun _ => none⟩

def setIndex (i : Index) : EPollPoller C := { p with index := Function.update p.index channel i }

/-- `update`; what `epoll_ctl` refuses is fatal, except for a delete. -/
def update (operation : CtlOp) : Except Fault (EPollPoller C) :=
  match operation, p.kernel (fd channel) with
  | .add, none | .mod, some _ =>
    .ok { p with kernel := Function.update p.kernel (fd channel) (some (events channel)) }
  | .add, some _ | .mod, none => .error .fatal
  | .del, _ => .ok { p with kernel := Function.update p.kernel (fd channel) none }

def updateChannel : Except Fault (EPollPoller C) :=
  match p.index channel with
  | .kNew => do
    check (p.channels (fd channel) = none)
    let p := { p with channels := Function.update p.channels (fd channel) (some channel) }
    (p.setIndex channel .kAdded).update fd events channel .add
  | .kDeleted => do
    check (p.channels (fd channel) ≠ none)
    check (p.channels (fd channel) = some channel)
    (p.setIndex channel .kAdded).update fd events channel .add
  | .kAdded => do
    check (p.channels (fd channel) ≠ none)
    check (p.channels (fd channel) = some channel)
    if events channel = kNoneEvent then
      let p ← p.update fd events channel .del
      .ok (p.setIndex channel .kDeleted)
    else
      p.update fd events channel .mod

def removeChannel : Except Fault (EPollPoller C) := do
  check (p.channels (fd channel) ≠ none)
  check (p.channels (fd channel) = some channel)
  check (events channel = kNoneEvent)
  check (p.index channel = .kAdded ∨ p.index channel = .kDeleted)
  let erased := { p with channels := Function.update p.channels (fd channel) none }
  let p ←
    if p.index channel = .kAdded then erased.update fd events channel .del else .ok erased
  .ok (p.setIndex channel .kNew)

end EPollPoller

/-- `struct pollfd`; `fd` is negative when it is to be ignored. -/
structure PollFd where
  fd : Int
  events : Events
  deriving DecidableEq, Repr

/-- `PollPoller` with the `index_` it keeps in each channel. -/
structure PollPoller (C : Type) where
  index : C → Int
  channels : Nat → Option C
  pollfds : List PollFd

namespace PollPoller

variable (p : PollPoller C) (fd : C → Nat) (events : C → Events) (channel : C)

def initial (C : Type) : PollPoller C := ⟨fun _ => -1, fun _ => none, []⟩

def setIndex (i : Int) : PollPoller C := { p with index := Function.update p.index channel i }

/-- `pollfds_[idx]`. -/
def slot (idx : Int) : Except Fault PollFd :=
  match p.pollfds[idx.toNat]? with
  | some pfd => .ok pfd
  | none => .error .outOfBounds

def updateChannel : Except Fault (PollPoller C) :=
  if p.index channel < 0 then do
    check (p.channels (fd channel) = none)
    let pfd : PollFd := ⟨fd channel, events channel⟩
    let p := { p with pollfds := p.pollfds ++ [pfd] }
    let p := p.setIndex channel (p.pollfds.length - 1 : Int)
    .ok { p with channels := Function.update p.channels (fd channel) (some channel) }
  else do
    check (p.channels (fd channel) ≠ none)
    check (p.channels (fd channel) = some channel)
    let idx := p.index channel
    check (0 ≤ idx ∧ idx < p.pollfds.length)
    let pfd ← p.slot idx
    check (pfd.fd = fd channel ∨ pfd.fd = -fd channel - 1)
    let pfd : PollFd := ⟨fd channel, events channel⟩
    let pfd := if events channel = kNoneEvent then { pfd with fd := -fd channel - 1 } else pfd
    .ok { p with pollfds := p.pollfds.set idx.toNat pfd }

/-- The descriptor that a slot encodes. -/
def decodeFd (fd : Int) : Nat := (if fd < 0 then -fd - 1 else fd).toNat

def removeChannel : Except Fault (PollPoller C) := do
  check (p.channels (fd channel) ≠ none)
  check (p.channels (fd channel) = some channel)
  check (events channel = kNoneEvent)
  let idx := p.index channel
  check (0 ≤ idx ∧ idx < p.pollfds.length)
  let pfd ← p.slot idx
  check (pfd.fd = -fd channel - 1 ∧ pfd.events = events channel)
  let p := { p with channels := Function.update p.channels (fd channel) none }
  if idx.toNat = p.pollfds.length - 1 then
    .ok { p with pollfds := p.pollfds.dropLast }
  else
    let back ← p.slot (p.pollfds.length - 1 : Int)
    -- the two slots are swapped, and the last one goes
    let swapped := (p.pollfds.set idx.toNat back).set (p.pollfds.length - 1) pfd
    match p.channels (decodeFd back.fd) with
    | some other => .ok { p.setIndex other idx with pollfds := swapped.dropLast }
    | none => .error .useAfterFree

/-- The kernel ignores negative descriptors. -/
def watched : List (Nat × Events) :=
  (p.pollfds.filter (0 ≤ ·.fd)).map fun pfd => (pfd.fd.toNat, pfd.events)

end PollPoller

/-- The same channels under one poller and under the other; `removed` is the history of the
calls of `remove`. -/
structure Loops (C : Type) where
  events : C → Events
  addedToLoop : C → Bool
  removed : C → Bool
  epoll : EPollPoller C
  poll : PollPoller C

/-- The calls on a channel that change its events. -/
inductive Change
  | enableReading
  | disableReading
  | enableWriting
  | disableWriting
  | disableAll
  deriving DecidableEq

def Change.apply : Change → Events → Events
  | .enableReading, e => { e with reading := true }
  | .disableReading, e => { e with reading := false }
  | .enableWriting, e => { e with writing := true }
  | .disableWriting, e => { e with writing := false }
  | .disableAll, _ => kNoneEvent

inductive Event (C : Type)
  | change (channel : C) (change : Change)
  | remove (channel : C)

namespace Loops

variable (fd : C → Nat) (s : Loops C)

def initial (C : Type) : Loops C where
  events _ := kNoneEvent
  addedToLoop _ := false
  removed _ := false
  epoll := .initial C
  poll := .initial C

/-- `Channel::update` behind a change of the events. -/
def change (channel : C) (change : Change) : Except Fault (Loops C) := do
  let events := Function.update s.events channel (change.apply (s.events channel))
  let epoll ← s.epoll.updateChannel fd events channel
  let poll ← s.poll.updateChannel fd events channel
  .ok { s with
    events := events
    addedToLoop := Function.update s.addedToLoop channel true
    epoll := epoll
    poll := poll }

/-- `Channel::remove`. -/
def remove (channel : C) : Except Fault (Loops C) := do
  check (s.events channel = kNoneEvent)
  let epoll ← s.epoll.removeChannel fd s.events channel
  let poll ← s.poll.removeChannel fd s.events channel
  .ok { s with
    addedToLoop := Function.update s.addedToLoop channel false
    removed := Function.update s.removed channel true
    epoll := epoll
    poll := poll }

/-- A channel is removed while it is in the loop and after its events are disabled. -/
def enabled (s : Loops C) : Event C → Prop
  | .change _ _ => True
  | .remove channel => s.addedToLoop channel = true ∧ s.events channel = kNoneEvent

def step (s : Loops C) : Event C → Except Fault (Loops C)
  | .change channel change => s.change fd channel change
  | .remove channel => s.remove fd channel

def machine : Machine (Loops C) (Event C) Fault where
  enabled := enabled
  step := step fd

end Loops

end Muduo.Net.Pollers
