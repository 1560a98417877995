import Muduo.Lib.LowerBound
import Muduo.Net.Basic

namespace Muduo.Base
open Muduo.Lib Muduo.Net

structure Transition where
  gmttime : Int
  localtime : Int
  localtimeIdx : Nat
  deriving DecidableEq, Repr

structure Comp where
  compareGmt : Bool

namespace Comp

/-- The time by which transitions are compared. -/
def key (c : Comp) (tr : Transition) : Int := if c.compareGmt then tr.gmttime else tr.localtime

/-- `operator()`. -/
def less (c : Comp) (lhs rhs : Transition) : Bool := c.key lhs < c.key rhs

def equal (c : Comp) (lhs rhs : Transition) : Bool := c.key lhs = c.key rhs

end Comp

structure Localtime where
  gmtOffset : Int
  isDst : Bool
  arrbIdx : Nat
  deriving DecidableEq, Repr

/-- `TimeZone::Data`. A transition names one of the local times, and carries the local time at
which that one sets in. -/
structure Data where
  transitions : List Transition
  localtimes : List Localtime
  abbreviation : Bytes
  indexed : ∀ tr ∈ transitions, ∃ l, localtimes[tr.localtimeIdx]? = some l ∧
    tr.localtime = tr.gmttime + l.gmtOffset

namespace Data

def empty : Data := ⟨[], [], [], by simp⟩

def pushLocaltime (d : Data) (l : Localtime) : Data where
  transitions := d.transitions
  localtimes := d.localtimes ++ [l]
  abbreviation := d.abbreviation
  indexed := by
    intro tr htr
    obtain ⟨k, hk, ht⟩ := d.indexed tr htr
    have hlt := (List.getElem?_eq_some_iff.mp hk).1
    exact ⟨k, by rw [List.getElem?_append_left hlt, hk], ht⟩

/-- The index is read from the file, and looked up before the transition is made. -/
def pushTransition (d : Data) (gmttime : Int) (localIdx : Nat) : Except Fault Data :=
  match h : d.localtimes[localIdx]? with
  | none => .error .outOfBounds
  | some l => .ok {
      transitions := d.transitions ++ [⟨gmttime, gmttime + l.gmtOffset, localIdx⟩]
      localtimes := d.localtimes
      abbreviation := d.abbreviation
      indexed := by
        intro tr htr
        rcases List.mem_append.mp htr with hm | hm
        · exact d.indexed tr hm
        · obtain rfl := List.mem_singleton.mp hm
          exact ⟨l, h, rfl⟩ }

def setAbbreviation (d : Data) (name : Bytes) : Data := { d with abbreviation := name }

/-- `localtimes.front()`. -/
def front (d : Data) : Except Fault Localtime :=
  match d.localtimes with
  | [] => .error .outOfBounds
  | l :: _ => .ok l

/-- `localtimes[tr.localtimeIdx]`. -/
def local? (d : Data) (tr : Transition) : Except Fault Localtime :=
  match d.localtimes[tr.localtimeIdx]? with
  | none => .error .outOfBounds
  | some l => .ok l

end Data

/-- How reading a zone file stops short: by a `logic_error`, which is caught, or for good. -/
inductive Thrown
  | logicError (what : String)
  | fault (f : Fault)
  deriving DecidableEq, Repr

/-- What is left of the file, and the data so far, which a `logic_error` leaves in place. -/
abbrev Reading := ExceptT Thrown (StateM (Bytes × Data))

namespace File

def fread (n : Nat) (what : String) : Reading Bytes := do
  let (file, data) ← get
  if file.length < n then throw (.logicError what)
  set (file.drop n, data)
  return file.take n

/-- `char buf[n]` needs a length that is not negative. -/
def readBytes (n : Int) : Reading Bytes := do
  if n < 0 then throw (.fault .outOfBounds)
  fread n.toNat "no enough data"

def readInt32 : Reading Int := do return peekInt32 (← fread 4 "bad int32_t data")

def readUInt8 : Reading Nat := do return BigEndian.decode (← fread 1 "bad uint8_t data")

end File

/-- `for (int i = 0; i < n; ++i)`. -/
def repeated {α : Type} (n : Nat) (read : Reading α) : Reading (List α) :=
  match n with
  | 0 => return []
  | n + 1 => do
    let a ← read
    return a :: (← repeated n read)

def readLocaltime : Reading Unit := do
  let gmtoff ← File.readInt32
  let isdst ← File.readUInt8
  let abbrind ← File.readUInt8
  modify fun (file, data) => (file, data.pushLocaltime ⟨gmtoff, isdst ≠ 0, abbrind⟩)

def addTransition (trans : Int) (localIdx : Nat) : Reading Unit := do
  let (file, data) ← get
  match data.pushTransition trans localIdx with
  | .error f => throw (.fault f)
  | .ok data => set (file, data)

def readZone : Reading Unit := do
  let head ← File.readBytes 4
  if head ≠ ascii "TZif" then throw (.logicError "bad head")
  let _version ← File.readBytes 1
  let _ ← File.readBytes 15
  let _isgmtcnt ← File.readInt32
  let _isstdcnt ← File.readInt32
  let _leapcnt ← File.readInt32
  let timecnt ← File.readInt32
  let typecnt ← File.readInt32
  let charcnt ← File.readInt32
  -- a negative count is a huge `size_t`
  if timecnt < 0 then throw (.logicError "vector::reserve")
  let trans ← repeated timecnt.toNat File.readInt32
  let localtimes ← repeated timecnt.toNat File.readUInt8
  let _ ← repeated typecnt.toNat readLocaltime
  (trans.zip localtimes).forM fun (t, localIdx) => addTransition t localIdx
  let abbreviation ← File.readBytes charcnt
  modify fun (file, data) => (file, data.setAbbreviation abbreviation)

/-- `readTimeZoneFile`, given what the file holds if it can be opened. -/
def readTimeZoneFile (zonefile : Option Bytes) : Except Fault Data :=
  match zonefile with
  | none => .ok .empty
  | some file =>
    match readZone.run.run (file, .empty) with
    | (.error (.fault f), _) => .error f
    | (_, _, data) => .ok data

/-- `findLocaltime`. -/
def findLocaltime (data : Data) (sentry : Transition) (comp : Comp) : Except Fault Localtime :=
  if data.transitions.head?.all (comp.less sentry) then data.front
  else
    let less := fun i => data.transitions[i]?.any (comp.less · sentry)
    let i := lowerBound less 0 data.transitions.length
    match data.transitions[i]? with
    | some tr => do
      if comp.equal sentry tr then data.local? tr
      else
        check (i ≠ 0)
        match data.transitions[i - 1]? with
        | some tr => data.local? tr
        | none => .error .outOfBounds
    | none =>
      match data.transitions.getLast? with
      | some tr => data.local? tr
      | none => .error .outOfBounds

/-- The fields of a `struct tm` that `gmtime_r` and `timegm` convert. -/
structure BrokenDown where
  tm_sec : Int
  tm_min : Int
  tm_hour : Int
  tm_mday : Int
  tm_mon : Int
  tm_year : Int
  tm_wday : Int
  tm_yday : Int
  deriving DecidableEq, Repr

/-- A `struct tm`; `tm_zone` points into `abbreviation`. -/
structure Tm extends BrokenDown where
  tm_isdst : Int
  tm_gmtoff : Int
  tm_zone : Nat
  deriving DecidableEq, Repr

/-- The calendar of the C library. -/
structure Calendar where
  gmtime_r : Int → BrokenDown
  timegm : BrokenDown → Int

/-- `data_` is null in an invalid time zone. -/
structure TimeZone where
  data_ : Option Data

namespace TimeZone

/-- `TimeZone(const char* zonefile)`. -/
def ofFile (zonefile : Option Bytes) : Except Fault TimeZone := do
  return ⟨some (← readTimeZoneFile zonefile)⟩

/-- `TimeZone(int eastOfUtc, const char* name)`. -/
def fixed (eastOfUtc : Int) (name : Bytes) : TimeZone :=
  ⟨some ((Data.empty.pushLocaltime ⟨eastOfUtc, false, 0⟩).setAbbreviation name)⟩

variable (cal : Calendar) (z : TimeZone)

/-- `assert(data_ != NULL)`. -/
def data : Except Fault Data :=
  match z.data_ with
  | none => .error .assertion
  | some d => .ok d

def toLocalTime (seconds : Int) : Except Fault Tm := do
  let data ← z.data
  let l ← findLocaltime data ⟨seconds, 0, 0⟩ ⟨true⟩
  let localSeconds := seconds + l.gmtOffset
  return { cal.gmtime_r localSeconds with
    tm_isdst := if l.isDst then 1 else 0
    tm_gmtoff := l.gmtOffset
    tm_zone := l.arrbIdx }

def fromLocalTime (localTm : Tm) : Except Fault Int := do
  let data ← z.data
  let seconds := cal.timegm localTm.toBrokenDown
  let l ← findLocaltime data ⟨0, seconds, 0⟩ ⟨false⟩
  if localTm.tm_isdst ≠ 0 then
    let tryTm ← z.toLocalTime cal (seconds - l.gmtOffset)
    if tryTm.tm_isdst = 0 ∧ tryTm.tm_hour = localTm.tm_hour ∧ tryTm.tm_min = localTm.tm_min then
      return seconds - 3600 - l.gmtOffset
  return seconds - l.gmtOffset

end TimeZone

end Muduo.Base
