import Muduo.Base.IntegerText
import Muduo.Base.UtcTime

namespace Muduo.Base
open Muduo.Lib Muduo.Net

/-- `%*d`. -/
def padded (width : Nat) (i : Int) : Bytes :=
  List.replicate (width - (decimal i).length) 32 ++ decimal i

/-- `%0*d`, with the zeros behind the sign. -/
def zeroPadded (width : Nat) (i : Int) : Bytes :=
  (if i < 0 then ascii "-" else []) ++ List.replicate (width - (decimal i).length) 48 ++
    decimal i.natAbs

/-- `"%4d%02d%02d %02d:%02d:%02d"`. -/
def dateTime (tm : BrokenDown) : Bytes :=
  padded 4 (tm.tm_year + 1900) ++ (zeroPadded 2 (tm.tm_mon + 1) ++ (zeroPadded 2 tm.tm_mday ++
    (ascii " " ++ (zeroPadded 2 tm.tm_hour ++ (ascii ":" ++ (zeroPadded 2 tm.tm_min ++
      (ascii ":" ++ zeroPadded 2 tm.tm_sec)))))))

def strlen (str : Bytes) : Nat := (str.takeWhile (· ≠ 0)).length

/-- The class `T`, a string whose length is known. -/
def T (str : Bytes) (len : Nat) : Except Fault Bytes := do
  check (strlen str = len)
  load str 0 len

/-- What a thread keeps of the time it formatted last, and the time zone of the program. The
history is the time zone in which `t_time` was filled, if it was. -/
structure Logging where
  t_time : Bytes
  t_lastSecond : Int
  g_logTimeZone : TimeZone
  filledIn : Option TimeZone

namespace Logging

def kMicroSecondsPerSecond : Int := 1000 * 1000

def secondsOf (microSecondsSinceEpoch : Int) : Int :=
  microSecondsSinceEpoch.tdiv kMicroSecondsPerSecond

def microsecondsOf (microSecondsSinceEpoch : Int) : Int :=
  castInt (microSecondsSinceEpoch.tmod kMicroSecondsPerSecond)

def new : Logging := ⟨List.replicate 32 0, 0, ⟨none⟩, none⟩

variable (cal : Calendar) (s : Logging)

/-- `tm_time`. -/
def brokenDown (z : TimeZone) (seconds : Int) : Except Fault BrokenDown :=
  if z.data_.isSome then do return (← z.toLocalTime cal seconds).toBrokenDown
  else .ok (cal.gmtime_r seconds)

def fill (seconds : Int) : Except Fault Logging := do
  let tm ← brokenDown cal s.g_logTimeZone seconds
  let t_time ← store s.t_time 0 (snprintf 32 (dateTime tm) ++ [0])
  check ((dateTime tm).length = 17)
  return { s with
    t_time := t_time, t_lastSecond := seconds, filledIn := some s.g_logTimeZone }

/-- `Fmt us`, and its text as a `T`. -/
def fraction (valid : Bool) (microseconds : Int) : Except Fault Bytes := do
  let us := ascii "." ++ zeroPadded 6 microseconds ++ if valid then ascii " " else ascii "Z "
  let len := if valid then 8 else 9
  check (us.length < 32)
  check (us.length = len)
  T (snprintf 32 us ++ [0]) len

/-- `formatTime`, with what it writes to the empty stream. -/
def formatTime (microSecondsSinceEpoch : Int) : Except Fault (Logging × Bytes) := do
  let seconds := secondsOf microSecondsSinceEpoch
  let s ← if seconds ≠ s.t_lastSecond then fill cal s seconds else pure s
  let us ← fraction s.g_logTimeZone.data_.isSome (microsecondsOf microSecondsSinceEpoch)
  let time ← T s.t_time 17
  return (s, time ++ us)

def setTimeZone (tz : TimeZone) : Logging := { s with g_logTimeZone := tz }

inductive Event
  | line (microSecondsSinceEpoch : Int)
  | setTimeZone (tz : TimeZone)

/-- The first second of the year 10000. -/
def year10000 : Int := 253402300800

def enabled : Event → Prop
  | .line t => 0 ≤ t ∧ t < year10000 * kMicroSecondsPerSecond
  | .setTimeZone _ => True

def step : Event → Except Fault Logging
  | .line t => do return (← formatTime cal s t).1
  | .setTimeZone tz => .ok (s.setTimeZone tz)

def machine : Machine Logging Event Fault where
  enabled _ := enabled
  step := step cal

/-- The time of a line, formatted without looking at what was formatted before. -/
def afresh (z : TimeZone) (microSecondsSinceEpoch : Int) : Except Fault Bytes := do
  let tm ← brokenDown cal z (secondsOf microSecondsSinceEpoch)
  check ((dateTime tm).length = 17)
  let us ← fraction z.data_.isSome (microsecondsOf microSecondsSinceEpoch)
  return dateTime tm ++ us

end Logging

end Muduo.Base
