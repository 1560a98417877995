import Muduo.Net.TcpConnection

namespace Muduo.Examples
open Muduo.Lib Muduo.Net

/-- A `FILE` opened for reading: what the file holds, how much of it has been read, and how
often the `FILE` has been closed. -/
structure FILE where
  content : Bytes
  position : Nat
  closed : Nat
  deriving DecidableEq, Repr

namespace FILE

def fopen (content : Bytes) : FILE := ⟨content, 0, 0⟩

variable (fp : FILE)

/-- The bytes that `fread` finds. -/
def next (n : Nat) : Bytes := (fp.content.drop fp.position).take n

def advance (n : Nat) : FILE := { fp with position := fp.position + (fp.next n).length }

def fread (n : Nat) : Except Fault (Bytes × FILE) :=
  if fp.closed = 0 then .ok (fp.next n, fp.advance n) else .error .useAfterFree

def fclose : Except Fault FILE :=
  if fp.closed = 0 then .ok { fp with closed := fp.closed + 1 } else .error .useAfterFree

end FILE

/-- The `boost::any` of a connection: nothing, a null pointer, or the pointer to its `FILE`. -/
inductive FileContext
  | empty
  | null
  | fp
  deriving DecidableEq, Repr

/-- A connection of the server in its loop. `file` is what `fopen` has returned for it, `sent`
holds the bytes passed to `send`, and `finished` says that the server has shut the connection
down at the end of the file. -/
structure Download where
  sys : System
  file : Option FILE
  context : FileContext
  sent : Bytes
  finished : Bool
  deriving DecidableEq, Repr

namespace Download

def kSize : Nat := 1024

/-- The connection as `TcpServer` hands it over, with its write-complete callback. -/
def accepted : Except Fault System := do
  let conn ← TcpConnection.new true false (64 * 1024 * 1024)
  let conn ← conn.connectEstablished
  .ok (System.start conn)

variable (s : Download)

def call (k : Net.Call) : Except Fault Download := do
  let sys ← s.sys.step (.call k)
  .ok { s with sys }

/-- `conn->send(buf, nread)`. -/
def send (buf : Bytes) (w : WriteResult) : Except Fault Download :=
  call { s with sent := s.sent ++ buf } (.send buf w)

/-- What `fopen(g_file, "r")` returns. -/
def openFile (content : Option Bytes) : Option FILE := content.map FILE.fopen

/-- `onConnection` of a connection that is up; `content` is what the file holds, if it can be
opened. -/
def onConnectionUp (sys : System) (content : Option Bytes) (w : WriteResult) :
    Except Fault Download :=
  let sys := { sys with
    conn.highWaterMarkCallback := true, conn.highWaterMark := kSize + 1 }
  match openFile content with
  | none => call ⟨sys, none, .empty, [], false⟩ .shutdown
  | some fp => do
    let (buf, fp) ← fp.fread kSize
    send ⟨sys, some fp, .fp, [], false⟩ buf w

/-- `fclose(fp)`, where the `FILE` is the one opened for the connection. -/
def fclose : Except Fault Download :=
  match s.file with
  | none => .error .useAfterFree
  | some fp => do
    let fp ← fp.fclose
    .ok { s with file := some fp }

/-- `onConnection` of a connection that is down. -/
def onConnectionDown : Except Fault Download :=
  match s.context with
  | .empty | .null => .ok s
  | .fp => s.fclose

/-- The two callbacks of `handleClose`. The server queues `connectDestroyed`. -/
def goesDown : Except Fault Download := do
  let s ← s.onConnectionDown
  let sys ← s.sys.step .queueConnectDestroyed
  .ok { s with sys }

/-- The message is discarded. -/
def onMessage : Except Fault Download :=
  s.call (.retrieveInput s.sys.conn.inputBuffer.readableBytes)

def onWriteComplete (w : WriteResult) : Except Fault Download :=
  match s.context, s.file with
  | .empty, _ => .error .fatal -- `bad_any_cast`
  | .null, _ => .error .assertion
  | .fp, none => .error .useAfterFree
  | .fp, some fp => do
    let (buf, fp) ← fp.fread kSize
    let s := { s with file := some fp }
    if 0 < buf.length then s.send buf w
    else do
      let s ← s.fclose
      let s ← { s with context := .null }.call .shutdown
      .ok { s with finished := true }

inductive Event
  | poll (r : Revents)
  | handle (read : Option Bytes) (w : WriteResult)
  | functor (w : WriteResult)

/-- The next functor is `writeCompleteCallback_`. -/
def WriteCompletes : Prop := s.sys.conn.pendingFunctors.head? = some .writeCompleteCallback

/-- What the callback reads from the file. -/
def nextChunk : Bytes := s.file.elim [] (FILE.next · kSize)

/-- The steps of the loop; `write(2)` takes no more than it is given. -/
def enabled : Event → Prop
  | .poll r => s.sys.enabled (.poll r)
  | .handle read w => s.sys.enabled (.handle read w)
  | .functor w => s.sys.enabled (.functor w) ∧ (s.WriteCompletes → w.taken ≤ s.nextChunk.length)

def handle (read : Option Bytes) (w : WriteResult) : Except Fault Download := do
  let sys ← s.sys.step (.handle read w)
  let t := { s with sys }
  match s.sys.callbacks.head?, read with
  | some .close, _ | some .read, some [] => t.goesDown
  | some .read, some (_ :: _) => t.onMessage
  | _, _ => .ok t

/-- `onHighWaterMark` only logs. -/
def functor (w : WriteResult) : Except Fault Download := do
  let sys ← s.sys.step (.functor w)
  let t := { s with sys }
  if s.sys.conn.pendingFunctors.head? = some .writeCompleteCallback then t.onWriteComplete w
  else .ok t

def step : Event → Except Fault Download
  | .poll r => do
    let sys ← s.sys.step (.poll r)
    .ok { s with sys }
  | .handle read w => s.handle read w
  | .functor w => s.functor w

def machine : Machine Download Event Fault where
  enabled := enabled
  step := step

instance (s : Download) : Decidable s.WriteCompletes := inferInstanceAs (Decidable (_ = _))

instance (s : Download) : ∀ e, Decidable (machine.enabled s e)
  | .poll r => inferInstanceAs (Decidable (s.sys.enabled (.poll r)))
  | .handle read w => inferInstanceAs (Decidable (s.sys.enabled (.handle read w)))
  | .functor _ => inferInstanceAs (Decidable (_ ∧ _))

/-- The states in which a connection of the server is once `onConnection` has run. -/
def Starts (content : Option Bytes) (s : Download) : Prop :=
  ∃ (sys : System) (w : WriteResult), accepted = .ok sys ∧
    w.taken ≤ ((content.getD []).take kSize).length ∧ onConnectionUp sys content w = .ok s

end Download

end Muduo.Examples
