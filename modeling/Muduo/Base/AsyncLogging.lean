import Muduo.Net.Basic

namespace Muduo.Base
open Muduo.Lib Muduo.Net

def kLargeBuffer : Nat := 4000 * 1000

/-- A `FixedBuffer<kLargeBuffer>`: the bytes in front of `cur_`. -/
abbrev FixedBuffer := Bytes

namespace FixedBuffer

def avail (b : FixedBuffer) : Nat := kLargeBuffer - b.length

/-- What does not fit is dropped. -/
def append (b : FixedBuffer) (buf : Bytes) : FixedBuffer :=
  if avail b > buf.length then b ++ buf else b

end FixedBuffer

/-- Where the backend thread is in `threadFunc`; `writing i` has passed the buffers before `i`
to the log file. -/
inductive Backend
  | absent
  | starting
  | top
  | collecting
  | waiting
  | writing (i : Nat)
  | done
  deriving DecidableEq

/-- A null pointer is `none`. -/
abbrev BufferPtr := Option FixedBuffer

/-- `output` holds the bytes passed to `LogFile::append`, and
`appended` the lines appended so far, in the order of the mutex. -/
structure AsyncLogging where
  running : Bool
  currentBuffer : BufferPtr
  nextBuffer : BufferPtr
  buffers : List BufferPtr
  backend : Backend
  newBuffer1 : BufferPtr
  newBuffer2 : BufferPtr
  buffersToWrite : List BufferPtr
  output : Bytes
  appended : List Bytes
  deriving DecidableEq

namespace AsyncLogging

/-- The constructor. -/
def initial : AsyncLogging where
  running := false
  currentBuffer := some []
  nextBuffer := some []
  buffers := []
  backend := .absent
  newBuffer1 := none
  newBuffer2 := none
  buffersToWrite := []
  output := []
  appended := []

/-- `p->`; a null pointer refers to no object. -/
def deref (p : BufferPtr) : Except Fault FixedBuffer :=
  match p with
  | some b => .ok b
  | none => .error .useAfterFree

def append (s : AsyncLogging) (logline : Bytes) : Except Fault AsyncLogging := do
  let s := { s with appended := s.appended ++ [logline] }
  let current ← deref s.currentBuffer
  if FixedBuffer.avail current > logline.length then
    .ok { s with currentBuffer := some (FixedBuffer.append current logline) }
  else
    let s := { s with buffers := s.buffers ++ [s.currentBuffer] }
    let s := match s.nextBuffer with
      | some next => { s with currentBuffer := some next, nextBuffer := none }
      | none => { s with currentBuffer := some [] }
    let current ← deref s.currentBuffer
    .ok { s with currentBuffer := some (FixedBuffer.append current logline) }

def start (s : AsyncLogging) : AsyncLogging := { s with running := true, backend := .starting }

def stop (s : AsyncLogging) : AsyncLogging := { s with running := false }

/-- The head of `threadFunc`. -/
def enterThread (s : AsyncLogging) : Except Fault AsyncLogging := do
  check (s.running = true)
  .ok { s with
    newBuffer1 := some []
    newBuffer2 := some []
    buffersToWrite := []
    backend := .top }

/-- `while (running_)` and the assertions at the top of a cycle. -/
def beginCycle (s : AsyncLogging) : Except Fault AsyncLogging := do
  if s.running then
    check (∃ b ∈ s.newBuffer1, b.length = 0)
    check (∃ b ∈ s.newBuffer2, b.length = 0)
    check (s.buffersToWrite = [])
    .ok { s with backend := .collecting }
  else .ok { s with backend := .done }

/-- The text about dropped buffers, cut to `sizeof buf - 1` bytes. -/
def droppedNotice (now : Bytes) (size : Nat) : Bytes :=
  let text (s : String) : Bytes := s.toUTF8.toList
  (text "Dropped log messages at " ++ now ++
    text (", " ++ toString (size - 2) ++ " larger buffers\n")).take 255

/-- The critical section behind the wait, and what follows it up to the writing. -/
def collect (s : AsyncLogging) (now : Bytes) : Except Fault AsyncLogging := do
  let s := { s with
    buffersToWrite := s.buffers ++ [s.currentBuffer]
    buffers := s.buffersToWrite
    currentBuffer := s.newBuffer1
    newBuffer1 := none }
  let s := match s.nextBuffer with
    | some _ => s
    | none => { s with nextBuffer := s.newBuffer2, newBuffer2 := none }
  check (s.buffersToWrite ≠ [])
  let s :=
    if s.buffersToWrite.length > 25 then
      { s with
        output := s.output ++ droppedNotice now s.buffersToWrite.length
        buffersToWrite := s.buffersToWrite.take 2 }
    else s
  .ok { s with backend := .writing 0 }

/-- The critical section up to the wait, if there is one. -/
def lock (s : AsyncLogging) (now : Bytes) : Except Fault AsyncLogging :=
  if s.buffers = [] then .ok { s with backend := .waiting } else s.collect now

/-- `newBuffer = std::move(buffersToWrite.back())`, if it is null, with a `reset`; returns
the buffers that are left. -/
def refill (newBuffer : BufferPtr) (buffersToWrite : List BufferPtr) :
    Except Fault (BufferPtr × List BufferPtr) :=
  match newBuffer with
  | some b => .ok (some b, buffersToWrite)
  | none => do
    check (buffersToWrite ≠ [])
    let _ ← deref (buffersToWrite.getLastD none)
    .ok (some [], buffersToWrite.dropLast)

/-- The end of a cycle. -/
def endCycle (s : AsyncLogging) : Except Fault AsyncLogging := do
  let buffersToWrite := s.buffersToWrite.take 2
  let (newBuffer1, buffersToWrite) ← refill s.newBuffer1 buffersToWrite
  let (newBuffer2, _) ← refill s.newBuffer2 buffersToWrite
  .ok { s with
    newBuffer1 := newBuffer1
    newBuffer2 := newBuffer2
    buffersToWrite := []
    backend := .top }

/-- One turn of the loop over `buffersToWrite`. -/
def writeNext (s : AsyncLogging) (i : Nat) : Except Fault AsyncLogging :=
  match s.buffersToWrite[i]? with
  | some p => do
    let b ← deref p
    .ok { s with output := s.output ++ b, backend := .writing (i + 1) }
  | none => s.endCycle

/-- `now` is the formatted time that a notice would show; `backend` is a step of the backend
thread, which out of the wait may come at any time. -/
inductive Event
  | append (logline : Bytes)
  | start
  | stop
  | backend (now : Bytes)

def enabled (s : AsyncLogging) : Event → Prop
  | .append _ => True
  | .start => s.backend = .absent
  | .stop => s.backend ≠ .absent ∧ s.backend ≠ .starting
  | .backend _ => s.backend ≠ .absent ∧ s.backend ≠ .done

def step (s : AsyncLogging) : Event → Except Fault AsyncLogging
  | .append logline => s.append logline
  | .start => .ok s.start
  | .stop => .ok s.stop
  | .backend now =>
    match s.backend with
    | .absent => .ok s
    | .starting => s.enterThread
    | .top => s.beginCycle
    | .collecting => s.lock now
    | .waiting => s.collect now
    | .writing i => s.writeNext i
    | .done => .ok s

def machine : Machine AsyncLogging Event Fault where
  enabled := enabled
  step := step

instance (s : AsyncLogging) : ∀ e, Decidable (machine.enabled s e)
  | .append _ => isTrue trivial
  | .start => inferInstanceAs (Decidable (s.backend = .absent))
  | .stop => inferInstanceAs (Decidable (s.backend ≠ .absent ∧ s.backend ≠ .starting))
  | .backend _ => inferInstanceAs (Decidable (s.backend ≠ .absent ∧ s.backend ≠ .done))

end AsyncLogging

end Muduo.Base
