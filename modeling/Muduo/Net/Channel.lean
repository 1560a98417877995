import Muduo.Net.Basic

namespace Muduo.Net
open Muduo.Lib

/-- `events_`: the bits of `kReadEvent` (`POLLIN | POLLPRI`) are only set and cleared
together, and so are those of `kWriteEvent` (`POLLOUT`). -/
structure Events where
  reading : Bool
  writing : Bool
  deriving DecidableEq, Repr

def kNoneEvent : Events := ⟨false, false⟩

/-- `index_`, as EPollPoller uses it. -/
inductive Index
  | kNew
  | kAdded
  | kDeleted
  deriving DecidableEq, Repr

/-- `revents_`. -/
structure Revents where
  pollin : Bool
  pri : Bool
  out : Bool
  hup : Bool
  rdhup : Bool
  err : Bool
  nval : Bool
  deriving DecidableEq, Repr

/-- A channel, with what EPollPoller and the kernel hold for its descriptor: whether it is in
`channels_`, and its entry in the epoll interest set. -/
structure Channel where
  events : Events
  index : Index
  addedToLoop : Bool
  registered : Bool
  interest : Option Events
  deriving DecidableEq, Repr

inductive CtlOp
  | add
  | mod
  | del

namespace EPollPoller

/-- `EPollPoller::update`. `epoll_ctl` refuses to add a descriptor twice and to modify or
delete an absent one; only a failed delete is survived. -/
def update (op : CtlOp) (c : Channel) : Except Fault Channel :=
  match op, c.interest with
  | .add, none | .mod, some _ => .ok { c with interest := some c.events }
  | .add, some _ | .mod, none => .error .fatal
  | .del, _ => .ok { c with interest := none }

def updateChannel (c : Channel) : Except Fault Channel :=
  match c.index with
  | .kNew => do
    check (c.registered = false)
    update .add { c with registered := true, index := .kAdded }
  | .kDeleted => do
    check (c.registered = true)
    update .add { c with index := .kAdded }
  | .kAdded => do
    check (c.registered = true)
    if c.events = kNoneEvent then
      let c ← update .del c
      .ok { c with index := .kDeleted }
    else
      update .mod c

def removeChannel (c : Channel) : Except Fault Channel := do
  check (c.registered = true)
  check (c.events = kNoneEvent)
  check (c.index = .kAdded ∨ c.index = .kDeleted)
  let c := { c with registered := false }
  let c ← if c.index = .kAdded then update .del c else .ok c
  .ok { c with index := .kNew }

end EPollPoller

namespace Channel

def new : Channel := ⟨kNoneEvent, .kNew, false, false, none⟩

def isNoneEvent (c : Channel) : Bool := c.events = kNoneEvent
def isWriting (c : Channel) : Bool := c.events.writing
def isReading (c : Channel) : Bool := c.events.reading

def update (c : Channel) : Except Fault Channel :=
  EPollPoller.updateChannel { c with addedToLoop := true }

def enableReading (c : Channel) : Except Fault Channel :=
  update { c with events := { c.events with reading := true } }

def disableReading (c : Channel) : Except Fault Channel :=
  update { c with events := { c.events with reading := false } }

def enableWriting (c : Channel) : Except Fault Channel :=
  update { c with events := { c.events with writing := true } }

def disableWriting (c : Channel) : Except Fault Channel :=
  update { c with events := { c.events with writing := false } }

def disableAll (c : Channel) : Except Fault Channel :=
  update { c with events := kNoneEvent }

def remove (c : Channel) : Except Fault Channel := do
  check (c.isNoneEvent = true)
  EPollPoller.removeChannel { c with addedToLoop := false }

/-- The callbacks of `handleEventWithGuard`. -/
inductive Callback
  | close
  | error
  | read
  | write
  deriving DecidableEq, Repr

/-- The callbacks `handleEventWithGuard` makes, in its order. -/
def handleEventWithGuard (r : Revents) : List Callback :=
  (if r.hup && !r.pollin then [.close] else []) ++
  (if r.err || r.nval then [.error] else []) ++
  (if r.pollin || r.pri || r.rdhup then [.read] else []) ++
  (if r.out then [.write] else [])

/-- `index_`, `channels_` and the interest set agree. -/
structure Consistent (c : Channel) : Prop where
  registered : c.registered = true ↔ c.index ≠ .kNew
  interest : c.interest.isSome ↔ c.index = .kAdded

theorem new_consistent : new.Consistent :=
  ⟨by decide, by decide⟩

/-- What `update` leaves for the events `e`: clearing the events of an added channel takes it
out of the interest set, anything else puts it in, with no events too. -/
def settle (c : Channel) (e : Events) : Channel :=
  if c.index = .kAdded ∧ e = kNoneEvent then ⟨e, .kDeleted, true, true, none⟩
  else ⟨e, .kAdded, true, true, some e⟩

variable {c : Channel}

@[simp] theorem settle_events (e : Events) : (c.settle e).events = e := by
  unfold settle
  split <;> rfl

@[simp] theorem settle_registered (e : Events) : (c.settle e).registered = true := by
  unfold settle
  split <;> rfl

theorem settle_consistent (e : Events) : (c.settle e).Consistent := by
  unfold settle
  split
  · exact ⟨by simp, by simp⟩
  · exact ⟨by simp, by simp⟩

theorem settle_some {e : Events} (he : e ≠ kNoneEvent) :
    c.settle e = ⟨e, .kAdded, true, true, some e⟩ := if_neg fun h => he h.2

theorem settle_none (h : c.index = .kAdded) :
    c.settle kNoneEvent = ⟨kNoneEvent, .kDeleted, true, true, none⟩ := if_pos ⟨h, rfl⟩

/-- A consistent channel never meets a failed assertion or `epoll_ctl` in the poller. -/
theorem update_eq (h : c.Consistent) (e : Events) :
    update { c with events := e } = .ok (c.settle e) := by
  obtain ⟨hr, hi⟩ := h
  obtain ⟨ev, index, added, registered, interest⟩ := c
  cases index with
  | kNew =>
    have hreg : registered = false := by simpa using hr
    have hint : interest = none := by simpa using hi
    subst hreg hint
    rfl
  | kDeleted =>
    have hreg : registered = true := by simpa using hr
    have hint : interest = none := by simpa using hi
    subst hreg hint
    rfl
  | kAdded =>
    have hreg : registered = true := by simpa using hr
    obtain ⟨old, hint⟩ : ∃ old, interest = some old := Option.isSome_iff_exists.mp (hi.mpr rfl)
    subst hreg hint
    by_cases he : e = kNoneEvent
    · subst he
      rfl
    · simp [update, EPollPoller.updateChannel, EPollPoller.update, check, he, settle]

theorem enableReading_eq (h : c.Consistent) :
    c.enableReading = .ok (c.settle { c.events with reading := true }) := update_eq h _

theorem disableReading_eq (h : c.Consistent) :
    c.disableReading = .ok (c.settle { c.events with reading := false }) := update_eq h _

theorem enableWriting_eq (h : c.Consistent) :
    c.enableWriting = .ok (c.settle { c.events with writing := true }) := update_eq h _

theorem disableWriting_eq (h : c.Consistent) :
    c.disableWriting = .ok (c.settle { c.events with writing := false }) := update_eq h _

theorem disableAll_eq (h : c.Consistent) : c.disableAll = .ok (c.settle kNoneEvent) :=
  update_eq h _

/-- Removing a registered channel with no events leaves the poller without it. -/
theorem remove_eq (h : c.Consistent) (hr : c.registered = true) (he : c.events = kNoneEvent) :
    c.remove = .ok new := by
  obtain ⟨ev, index, added, registered, interest⟩ := c
  obtain ⟨hreg, hint⟩ := h
  subst hr he
  cases index with
  | kNew => simp at hreg
  | kDeleted =>
    have hint : interest = none := by simpa using hint
    subst hint
    rfl
  | kAdded => rfl

/-- The assertion of `remove` guards against enabled events. -/
theorem remove_enabled (he : c.events ≠ kNoneEvent) : c.remove = .error .assertion := by
  simp [remove, isNoneEvent, check, he]

theorem remove_yields (h : c.Consistent) :
    Yields (fun c' => c'.Consistent ∧ c'.events = c.events) (· = Fault.assertion) c.remove := by
  by_cases he : c.events = kNoneEvent
  · cases hr : c.registered with
    | true =>
      rw [remove_eq h hr he]
      exact ⟨new_consistent, he.symm⟩
    | false =>
      simp [remove, isNoneEvent, he, EPollPoller.removeChannel, check, hr]
  · rw [remove_enabled he]
    rfl

end Channel

end Muduo.Net
