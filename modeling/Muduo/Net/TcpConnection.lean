import Muduo.Net.BufferQueue
import Muduo.Net.Channel

namespace Muduo.Net
open Muduo.Lib

inductive StateE
  | kDisconnected
  | kConnecting
  | kConnected
  | kDisconnecting
  deriving DecidableEq, Repr

inductive Errno
  | EWOULDBLOCK
  | EPIPE
  | ECONNRESET
  | other
  deriving DecidableEq, Repr

/-- The result of `write(2)`: how many bytes it took, or why it failed. -/
inductive WriteResult
  | wrote (n : Nat)
  | failed (errno : Errno)
  deriving DecidableEq, Repr

/-- The number of bytes taken. -/
def WriteResult.taken : WriteResult → Nat
  | .wrote n => n
  | .failed _ => 0

/-- What a connection puts into `pendingFunctors_` of its loop. -/
inductive Functor
  | sendInLoop (message : Bytes)
  | writeCompleteCallback
  | highWaterMarkCallback (len : Nat)
  | forceCloseInLoop
  | connectDestroyed
  deriving DecidableEq, Repr

/-- What the connection has done so far, seen from outside: the messages that `sendInLoop`
was called with and did not give up, the bytes `write(2)` took, and how often each callback ran. -/
structure Log where
  accepted : Bytes
  written : Bytes
  shutdownWrites : Nat
  handleCloses : Nat
  ups : Nat
  downs : Nat
  closeCallbacks : Nat
  deriving DecidableEq, Repr

/-- A connection with the functors it has pending in its loop. A callback that the user did
not set is `false`. -/
structure TcpConnection where
  state : StateE
  reading : Bool
  channel : Channel
  writeCompleteCallback : Bool
  highWaterMarkCallback : Bool
  highWaterMark : Nat
  inputBuffer : Buffer
  outputBuffer : Buffer
  pendingFunctors : List Functor
  log : Log
  deriving DecidableEq, Repr

namespace TcpConnection

/-- The constructor, and the setters called before the connection is established. -/
def new (writeCompleteCallback highWaterMarkCallback : Bool) (highWaterMark : Nat) :
    Except Fault TcpConnection := do
  let inputBuffer ← Buffer.new kInitialSize
  let outputBuffer ← Buffer.new kInitialSize
  .ok ⟨.kConnecting, true, Channel.new, writeCompleteCallback, highWaterMarkCallback,
    highWaterMark, inputBuffer, outputBuffer, [], ⟨[], [], 0, 0, 0, 0, 0⟩⟩

def queueInLoop (c : TcpConnection) (f : Functor) : TcpConnection :=
  { c with pendingFunctors := c.pendingFunctors ++ [f] }

/-- The direct write of `sendInLoop`: the connection, `nwrote` and `faultError`. -/
def writeDirectly (c : TcpConnection) (message : Bytes) (w : WriteResult) :
    TcpConnection × Nat × Bool :=
  match w with
  | .wrote n =>
    let c := { c with log.written := c.log.written ++ message.take n }
    if sizeSub message.length n = 0 ∧ c.writeCompleteCallback then
      (c.queueInLoop .writeCompleteCallback, n, false)
    else (c, n, false)
  | .failed errno => (c, 0, errno = .EPIPE ∨ errno = .ECONNRESET)

/-- The output grows from `oldLen` to `newLen` bytes. -/
def queueHighWaterMark (c : TcpConnection) (oldLen newLen : Nat) : TcpConnection :=
  if c.highWaterMark ≤ newLen ∧ oldLen < c.highWaterMark ∧ c.highWaterMarkCallback then
    c.queueInLoop (.highWaterMarkCallback newLen)
  else c

/-- `sendInLoop` puts into `outputBuffer_` what was not written. -/
def keepRemaining (c : TcpConnection) (rest : Bytes) : Except Fault TcpConnection := do
  let oldLen := c.outputBuffer.readableBytes
  let c := c.queueHighWaterMark oldLen (sizeAdd oldLen rest.length)
  let outputBuffer ← c.outputBuffer.append rest
  let c := { c with outputBuffer := outputBuffer }
  if c.channel.isWriting then .ok c
  else
    let channel ← c.channel.enableWriting
    .ok { c with channel := channel }

/-- The rest of `sendInLoop` after the attempt to write directly. -/
def sendRemaining (c : TcpConnection) (message : Bytes) (nwrote : Nat) (faultError : Bool) :
    Except Fault TcpConnection := do
  let remaining := sizeSub message.length nwrote
  check (remaining ≤ message.length)
  if !faultError && 0 < remaining then c.keepRemaining (message.drop nwrote) else .ok c

/-- `!channel_->isWriting() && outputBuffer_.readableBytes() == 0`. -/
def writesDirectly (c : TcpConnection) : Bool :=
  !c.channel.isWriting && c.outputBuffer.readableBytes = 0

def sendInLoop (c : TcpConnection) (message : Bytes) (w : WriteResult) :
    Except Fault TcpConnection :=
  if c.state = .kDisconnected then .ok c
  else
    let c := { c with log.accepted := c.log.accepted ++ message }
    let (c, nwrote, faultError) :=
      if c.writesDirectly then c.writeDirectly message w else (c, 0, false)
    c.sendRemaining message nwrote faultError

/-- `sendInLoop` of a queued string, to which a `StringPiece` refers. -/
def sendPiece (c : TcpConnection) (message : Bytes) (w : WriteResult) :
    Except Fault TcpConnection :=
  if c.state = .kDisconnected then .ok c
  else do
    -- `write(2)` refuses a size behind the end of the string, and `append` throws or reads there
    let data ← stringPiece message
    let c' ← c.sendInLoop data w
    .ok { c' with log.accepted := c.log.accepted ++ message }

/-- `send` on the loop thread. -/
def send (c : TcpConnection) (message : Bytes) (w : WriteResult) : Except Fault TcpConnection :=
  if c.state = .kConnected then c.sendInLoop message w else .ok c

def shutdownInLoop (c : TcpConnection) : TcpConnection :=
  if c.channel.isWriting then c
  else { c with log.shutdownWrites := c.log.shutdownWrites + 1 }

def shutdown (c : TcpConnection) : TcpConnection :=
  if c.state = .kConnected then shutdownInLoop { c with state := .kDisconnecting } else c

def forceClose (c : TcpConnection) : TcpConnection :=
  if c.state = .kConnected ∨ c.state = .kDisconnecting then
    queueInLoop { c with state := .kDisconnecting } .forceCloseInLoop
  else c

/-- The timer calls `forceClose` later, as any other code may. -/
def forceCloseWithDelay (c : TcpConnection) : TcpConnection :=
  if c.state = .kConnected ∨ c.state = .kDisconnecting then { c with state := .kDisconnecting }
  else c

/-- `connectionCallback_` and `closeCallback_` come last: what they call are further steps. -/
def handleClose (c : TcpConnection) : Except Fault TcpConnection := do
  check (c.state = .kConnected ∨ c.state = .kDisconnecting)
  let c := { c with state := .kDisconnected, log.handleCloses := c.log.handleCloses + 1 }
  let channel ← c.channel.disableAll
  let c := { c with channel := channel, log.downs := c.log.downs + 1 }
  .ok { c with log.closeCallbacks := c.log.closeCallbacks + 1 }

def forceCloseInLoop (c : TcpConnection) : Except Fault TcpConnection :=
  if c.state = .kConnected ∨ c.state = .kDisconnecting then c.handleClose else .ok c

/-- `startReadInLoop`, which `startRead` runs at once on the loop thread. -/
def startReadInLoop (c : TcpConnection) : Except Fault TcpConnection :=
  if !c.reading || !c.channel.isReading then do
    let channel ← c.channel.enableReading
    .ok { c with channel := channel, reading := true }
  else .ok c

def stopReadInLoop (c : TcpConnection) : Except Fault TcpConnection :=
  if c.reading || c.channel.isReading then do
    let channel ← c.channel.disableReading
    .ok { c with channel := channel, reading := false }
  else .ok c

def connectEstablished (c : TcpConnection) : Except Fault TcpConnection := do
  check (c.state = .kConnecting)
  let channel ← c.channel.enableReading
  .ok { c with state := .kConnected, channel := channel, log.ups := c.log.ups + 1 }

/-- `connectDestroyed` up to its `connectionCallback_`. -/
def disconnect (c : TcpConnection) : Except Fault TcpConnection := do
  let channel ← c.channel.disableAll
  .ok { c with state := .kDisconnected, channel := channel, log.downs := c.log.downs + 1 }

/-- `channel_->remove()`, the last line of `connectDestroyed`. -/
def removeChannel (c : TcpConnection) : Except Fault TcpConnection := do
  let channel ← c.channel.remove
  .ok { c with channel := channel }

/-- `some []` is the end of the stream; for other bytes `messageCallback_` comes last. -/
def handleRead (c : TcpConnection) (read : Option Bytes) : Except Fault TcpConnection := do
  let inputBuffer ← c.inputBuffer.readFd read
  let c := { c with inputBuffer := inputBuffer }
  if read = some [] then c.handleClose else .ok c

/-- `handleWrite` once the buffer is drained. -/
def drained (c : TcpConnection) : Except Fault TcpConnection := do
  let channel ← c.channel.disableWriting
  let c := { c with channel := channel }
  let c := if c.writeCompleteCallback then c.queueInLoop .writeCompleteCallback else c
  .ok (if c.state = .kDisconnecting then c.shutdownInLoop else c)

def handleWrite (c : TcpConnection) (w : WriteResult) : Except Fault TcpConnection :=
  if c.channel.isWriting then do
    let data ← load c.outputBuffer.buffer c.outputBuffer.peek c.outputBuffer.readableBytes
    match w with
    | .failed _ | .wrote 0 => .ok c
    | .wrote (n + 1) =>
      let outputBuffer ← c.outputBuffer.retrieve (n + 1)
      let c := { c with
        outputBuffer := outputBuffer, log.written := c.log.written ++ data.take (n + 1) }
      if c.outputBuffer.readableBytes = 0 then c.drained else .ok c
  else .ok c

/-- The user of the connection consumes part of `inputBuffer_`. -/
def retrieveInput (c : TcpConnection) (len : Nat) : Except Fault TcpConnection := do
  let inputBuffer ← c.inputBuffer.retrieve len
  .ok { c with inputBuffer := inputBuffer }

end TcpConnection

/-- What user code calls on the loop thread; `w` is the result of a direct write. -/
inductive Call
  | send (message : Bytes) (w : WriteResult)
  | shutdown
  | forceClose
  | forceCloseWithDelay
  | startRead
  | stopRead
  | retrieveInput (len : Nat)

/-- The connection in its loop: the callbacks `handleEventWithGuard` still has to make,
whether `connectDestroyed` is in its callback, the messages of other threads that passed the
check of `send` and are not queued yet, and whether `connectDestroyed` has been queued. -/
structure System where
  conn : TcpConnection
  callbacks : List Channel.Callback
  destroying : Bool
  offered : List Bytes
  destroyQueued : Bool
  deriving DecidableEq, Repr

inductive Event
  | call (k : Call)
  | otherSend (message : Bytes)
  | otherQueue (message : Bytes)
  | poll (r : Revents)
  | handle (read : Option Bytes) (w : WriteResult)
  | functor (w : WriteResult)
  | queueConnectDestroyed
  | finishConnectDestroyed

namespace System
open TcpConnection

/-- A message lies in memory, and `write(2)` takes no more than it is given. -/
def Sends (message : Bytes) (w : WriteResult) : Prop :=
  message.length ≤ maxSize ∧ w.taken ≤ message.length

/-- The kernel reports events of the interest set, hang-ups and errors, and no hang-up with
priority data unless there is data to read too. -/
def Reports (r : Revents) : Option Events → Prop
  | none => False
  | some e => (r.pollin → e.reading) ∧ (r.pri → e.reading) ∧ (r.out → e.writing) ∧
    r.rdhup = false ∧ (r.hup ∧ r.pri → r.pollin)

/-- A functor that sends meets a `write(2)` that takes no more than it is given. -/
def SendsFunctor (w : WriteResult) : List Functor → Prop
  | .sendInLoop message :: _ => Sends (message.take (pieceSize message.length)) w
  | _ => True

/-- The loop is between two channels' events, or between two functors. -/
def Idle (s : System) : Prop := s.callbacks = [] ∧ s.destroying = false

def CallAllowed (s : System) : Call → Prop
  | .send message w => Sends message w
  | .retrieveInput len => len ≤ s.conn.inputBuffer.readableBytes
  | _ => True

/-- What the environment may do: `handle` and `functor` are the loop going on, with the
results of the system calls they make. -/
def enabled (s : System) : Event → Prop
  | .call k => s.CallAllowed k
  | .otherSend message => message.length ≤ maxSize ∧ s.conn.state = .kConnected
  | .otherQueue message => message ∈ s.offered
  | .poll r => s.Idle ∧ Reports r s.conn.channel.interest
  | .handle read w =>
    s.callbacks ≠ [] ∧ s.destroying = false ∧
      (read.getD []).length ≤ s.conn.inputBuffer.iovBytes ∧
      w.taken ≤ s.conn.outputBuffer.readableBytes
  | .functor w =>
    s.Idle ∧ s.conn.pendingFunctors ≠ [] ∧ SendsFunctor w s.conn.pendingFunctors
  | .queueConnectDestroyed => s.destroyQueued = false
  | .finishConnectDestroyed => s.destroying = true

instance (message : Bytes) (w : WriteResult) : Decidable (Sends message w) :=
  inferInstanceAs (Decidable (_ ∧ _))

instance (r : Revents) : (interest : Option Events) → Decidable (Reports r interest)
  | none => isFalse id
  | some _ => inferInstanceAs (Decidable (_ ∧ _))

instance (w : WriteResult) : (fs : List Functor) → Decidable (SendsFunctor w fs)
  | .sendInLoop _ :: _ => inferInstanceAs (Decidable (Sends _ _))
  | [] | .writeCompleteCallback :: _ | .highWaterMarkCallback _ :: _ | .forceCloseInLoop :: _
  | .connectDestroyed :: _ => isTrue trivial

instance (s : System) : Decidable s.Idle := inferInstanceAs (Decidable (_ ∧ _))

instance (s : System) : (k : Call) → Decidable (s.CallAllowed k)
  | .send _ _ => inferInstanceAs (Decidable (Sends _ _))
  | .retrieveInput _ => inferInstanceAs (Decidable (_ ≤ _))
  | .shutdown | .forceClose | .forceCloseWithDelay | .startRead | .stopRead => isTrue trivial

instance (s : System) : (e : Event) → Decidable (s.enabled e)
  | .call k => inferInstanceAs (Decidable (s.CallAllowed k))
  | .otherSend _ | .poll _ | .handle _ _ | .functor _ => inferInstanceAs (Decidable (_ ∧ _))
  | .otherQueue _ => inferInstanceAs (Decidable (_ ∈ _))
  | .queueConnectDestroyed | .finishConnectDestroyed => inferInstanceAs (Decidable (_ = _))

def callStep (c : TcpConnection) : Call → Except Fault TcpConnection
  | .send message w => c.send message w
  | .shutdown => .ok c.shutdown
  | .forceClose => .ok c.forceClose
  | .forceCloseWithDelay => .ok c.forceCloseWithDelay
  | .startRead => c.startReadInLoop
  | .stopRead => c.stopReadInLoop
  | .retrieveInput len => c.retrieveInput len

def callbackStep (c : TcpConnection) (read : Option Bytes) (w : WriteResult) :
    Channel.Callback → Except Fault TcpConnection
  | .close => c.handleClose
  | .error => .ok c
  | .read => c.handleRead read
  | .write => c.handleWrite w

/-- The two user callbacks do what they do in further steps. -/
def functorStep (c : TcpConnection) (w : WriteResult) : Functor → Except Fault TcpConnection
  | .sendInLoop message => c.sendPiece message w
  | .writeCompleteCallback | .highWaterMarkCallback _ => .ok c
  | .forceCloseInLoop => c.forceCloseInLoop
  | .connectDestroyed => if c.state = .kConnected then c.disconnect else c.removeChannel

/-- `connectDestroyed` makes its callback only on a connection that is still up. -/
def callsBack (c : TcpConnection) (f : Functor) : Bool :=
  f = .connectDestroyed ∧ c.state = .kConnected

def step (s : System) : Event → Except Fault System
  | .call k => do
    let conn ← callStep s.conn k
    .ok { s with conn := conn }
  | .otherSend message => .ok { s with offered := message :: s.offered }
  | .otherQueue message =>
    .ok { s with
      conn := s.conn.queueInLoop (.sendInLoop message), offered := s.offered.erase message }
  | .poll r => .ok { s with callbacks := Channel.handleEventWithGuard r }
  | .handle read w =>
    match s.callbacks with
    | [] => .ok s
    | callback :: callbacks => do
      let conn ← callbackStep s.conn read w callback
      .ok { s with conn := conn, callbacks := callbacks }
  | .functor w =>
    match s.conn.pendingFunctors with
    | [] => .ok s
    | f :: fs => do
      let conn ← functorStep { s.conn with pendingFunctors := fs } w f
      .ok { s with conn := conn, destroying := callsBack s.conn f }
  | .queueConnectDestroyed =>
    .ok { s with conn := s.conn.queueInLoop .connectDestroyed, destroyQueued := true }
  | .finishConnectDestroyed => do
    let conn ← s.conn.removeChannel
    .ok { s with conn := conn, destroying := false }

section Steps

variable {s t : System}

theorem handle_cons {read : Option Bytes} {w : WriteResult} {callback : Channel.Callback}
    {callbacks : List Channel.Callback} (hcb : s.callbacks = callback :: callbacks)
    (h : s.step (.handle read w) = .ok t) :
    ∃ c, callbackStep s.conn read w callback = .ok c ∧
      t = { s with conn := c, callbacks := callbacks } := by
  simp only [step, hcb] at h
  obtain ⟨c, hc, h⟩ := bind_ok h
  cases h
  exact ⟨c, hc, rfl⟩

theorem functor_cons {w : WriteResult} {f : Functor} {fs : List Functor}
    (hfs : s.conn.pendingFunctors = f :: fs) (h : s.step (.functor w) = .ok t) :
    ∃ c, functorStep { s.conn with pendingFunctors := fs } w f = .ok c ∧
      t = { s with conn := c, destroying := callsBack s.conn f } := by
  simp only [step, hfs] at h
  obtain ⟨c, hc, h⟩ := bind_ok h
  cases h
  exact ⟨c, hc, rfl⟩

theorem call_ok {k : Call} (h : s.step (.call k) = .ok t) :
    ∃ c, callStep s.conn k = .ok c ∧ t = { s with conn := c } := by
  obtain ⟨c, hc, h⟩ := bind_ok h
  cases h
  exact ⟨c, hc, rfl⟩

end Steps

/-- The runs of one connection. -/
def machine : Machine System Event Fault := ⟨enabled, step⟩

instance : (s : System) → (e : Event) → Decidable (machine.enabled s e) :=
  fun s e => inferInstanceAs (Decidable (s.enabled e))

def start (conn : TcpConnection) : System := ⟨conn, [], false, [], false⟩

/-- The states from which runs start: a new connection after its `connectEstablished`. -/
def Established (s : System) : Prop :=
  ∃ (writeComplete highWater : Bool) (mark : Nat) (c₀ c : TcpConnection),
    TcpConnection.new writeComplete highWater mark = .ok c₀ ∧
      c₀.connectEstablished = .ok c ∧ s = start c

end System

end Muduo.Net
