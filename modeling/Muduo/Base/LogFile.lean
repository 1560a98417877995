import Muduo.Base.Logging
import Muduo.Lib.Settling

namespace Muduo.Base
open Muduo.Lib Muduo.Net

/-- `contents` is what `fwrite` has taken, and `flushed` how much of it `fflush` or `fclose` has
passed on. The history is when the file was opened and what `append` was called with. -/
structure AppendFile where
  filename : Bytes
  contents : Bytes
  flushed : Nat
  writtenBytes : Nat
  opened : Int
  lines : List Bytes
  deriving DecidableEq

namespace AppendFile

/-- `fopen`. -/
def new (filename : Bytes) (now : Int) : AppendFile where
  filename := filename
  contents := []
  flushed := 0
  writtenBytes := 0
  opened := now
  lines := []

/-- A call of `fwrite_unlocked` that takes no more than `limit` bytes. -/
def write (f : AppendFile) (limit : Nat) (data : Bytes) : AppendFile :=
  { f with contents := f.contents ++ data.take limit }

/-- The loop of `append`, for the bytes that remain. The limits are those of the calls to come;
one more call takes everything. -/
def writeRest (f : AppendFile) (data : Bytes) : List Nat → AppendFile
  | [] => f.write data.length data
  | limit :: limits =>
    if data = [] ∨ limit = 0 then f else (f.write limit data).writeRest (data.drop limit) limits

def append (f : AppendFile) (logline : Bytes) (limits : List Nat) : AppendFile :=
  let f :=
    match limits with
    | [] => f.write logline.length logline
    | limit :: limits => (f.write limit logline).writeRest (logline.drop limit) limits
  { f with writtenBytes := f.writtenBytes + logline.length, lines := f.lines ++ [logline] }

def flush (f : AppendFile) : AppendFile := { f with flushed := f.contents.length }

end AppendFile

/-- What the names of log files are made of. -/
structure Host where
  calendar : Calendar
  hostname : Bytes
  pid : Int

/-- `file_` may be null. `closed` holds the files that were open before it, in order. -/
structure LogFile where
  basename : Bytes
  rollSize : Nat
  flushInterval : Int
  checkEveryN : Int
  count : Int
  startOfPeriod : Int
  lastRoll : Int
  lastFlush : Int
  file : Option AppendFile
  closed : List AppendFile

namespace LogFile

def kRollPerSeconds : Int := 60 * 60 * 24

/-- The start of the day. -/
def period (now : Int) : Int := now.tdiv kRollPerSeconds * kRollPerSeconds

/-- `".%Y%m%d-%H%M%S."`, which fits into `timebuf`. -/
def timebuf (tm : BrokenDown) : Bytes :=
  ascii "." ++ (decimal (tm.tm_year + 1900) ++ (zeroPadded 2 (tm.tm_mon + 1) ++
    (zeroPadded 2 tm.tm_mday ++ (ascii "-" ++ (zeroPadded 2 tm.tm_hour ++
      (zeroPadded 2 tm.tm_min ++ (zeroPadded 2 tm.tm_sec ++ ascii ".")))))))

variable (host : Host)

def getLogFileName (basename : Bytes) (now : Int) : Bytes :=
  basename ++ (timebuf (host.calendar.gmtime_r now) ++
    (host.hostname ++ (snprintf 32 (ascii "." ++ decimal host.pid) ++ ascii ".log")))

/-- `now` is what `getLogFileName` reads off the clock. -/
def rollFile (s : LogFile) (now : Int) : LogFile :=
  if s.lastRoll < now then
    { s with
      lastRoll := now
      lastFlush := now
      startOfPeriod := period now
      file := some (.new (getLogFileName host s.basename now) now)
      closed := s.closed ++ (s.file.map AppendFile.flush).toList }
  else s

/-- The constructor. -/
def new (basename : Bytes) (rollSize : Nat) (flushInterval checkEveryN now : Int) :
    Except Fault LogFile := do
  check ('/'.toNat.toUInt8 ∉ basename)
  .ok (rollFile host ⟨basename, rollSize, flushInterval, checkEveryN, 0, 0, 0, 0, none, []⟩ now)

/-- `file_->`. -/
def deref (s : LogFile) : Except Fault AppendFile :=
  match s.file with
  | some f => .ok f
  | none => .error .useAfterFree

/-- `now` is read here, and `rollNow` in `rollFile`. -/
def append_unlocked (s : LogFile) (logline : Bytes) (limits : List Nat) (now rollNow : Int) :
    Except Fault LogFile := do
  let file := (← s.deref).append logline limits
  let s := { s with file := some file }
  if s.rollSize < file.writtenBytes then .ok (rollFile host s rollNow)
  else
    let count ← intAdd s.count 1
    if s.checkEveryN ≤ count then
      let s := { s with count := 0 }
      if period now ≠ s.startOfPeriod then .ok (rollFile host s rollNow)
      else if s.flushInterval < now - s.lastFlush then
        .ok { s with lastFlush := now, file := some file.flush }
      else .ok s
    else .ok { s with count := count }

def flush (s : LogFile) : Except Fault LogFile := do
  .ok { s with file := some (← s.deref).flush }

/-- One thread at a time, with `mutex_` or without. -/
inductive Event
  | append (logline : Bytes) (limits : List Nat) (now rollNow : Int)
  | flush
  | rollFile (now : Int)

def step (s : LogFile) : Event → Except Fault LogFile
  | .append logline limits now rollNow => append_unlocked host s logline limits now rollNow
  | .flush => s.flush
  | .rollFile now => .ok (rollFile host s now)

def machine : Machine LogFile Event Fault where
  enabled _ _ := True
  step := step host

/-- The files, the open one last. -/
def files (s : LogFile) : List AppendFile := s.closed ++ s.file.toList

/-- The lines that were appended. -/
def appended (es : List Event) : List Bytes :=
  es.filterMap fun
    | .append logline _ _ _ => some logline
    | _ => none

/-- No write fails: each call in the loop takes something. -/
def Writes (_ : LogFile) : Event → Prop
  | .append _ limits _ _ => ∀ limit ∈ limits.tail, 0 < limit
  | _ => True

instance (s : LogFile) : ∀ e, Decidable (s.Writes e)
  | .append _ limits _ _ => inferInstanceAs (Decidable (∀ limit ∈ limits.tail, 0 < limit))
  | .flush | .rollFile _ => isTrue trivial

instance (s : LogFile) (e : Event) : Decidable ((machine host).enabled s e) := isTrue trivial

end LogFile

end Muduo.Base
