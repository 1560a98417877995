import Muduo.Examples.Sock4aServer
import Muduo.Net.TcpConnection

namespace Muduo.Examples
open Muduo.Lib Muduo.Net

/-- The two connections of a session: `serverConn`, which the SOCKS client opened, and that of
the `TcpClient` to the destination. -/
inductive Side
  | server
  | client
  deriving DecidableEq, Repr

def Side.other : Side → Side
  | .server => .client
  | .client => .server

/-- How a session can end the program. -/
inductive Crash
  | nullPointer
  | aborted
  | fault (f : Fault)
  deriving DecidableEq, Repr

/-- A callback that the loop has yet to make; `read` is what `read(2)` returns in it. -/
structure Due where
  side : Side
  callback : Channel.Callback
  read : Option Bytes
  deriving DecidableEq, Repr

/-- What `poll` reports of a channel, and what `read(2)` finds there. -/
structure Ready where
  side : Side
  revents : Revents
  read : Option Bytes
  deriving DecidableEq, Repr

def Ready.due (r : Ready) : List Due :=
  (Channel.handleEventWithGuard r.revents).map fun callback => ⟨r.side, callback, r.read⟩

/-- `MAX_BUFFER`. -/
def maxBuffer : Nat := 10 * 1024 * 1024

/-- The history of a side: the bytes read from it in this iteration of the loop, those read from
the opposite side in the iteration in which its output last crossed the mark, whether its
high-water callback has run with no write-complete callback since, and the bytes read from the
opposite side in that time. -/
structure Traffic where
  read : Nat
  crossing : Nat
  congested : Bool
  overrun : Nat
  deriving DecidableEq, Repr

/-- An established session in its loop. `connection` says that `connection_` of the `TcpClient` is
not null, `context` that the outbound connection has its context, and `removing` that
`connectDestroyed` of `serverConn` is still to be queued by the base loop. `closes` lists the
sides that went down, each with the bytes it had been given to send, and `shutdowns` counts the
calls of `shutdown()` on a connection that was not down. -/
structure SocksSession where
  conn : Side → TcpConnection
  connection : Bool
  context : Bool
  removing : Bool
  polled : Bool
  due : List Due
  functors : List (Side × Functor)
  pendingFunctors : List (Side × Functor)
  traffic : Side → Traffic
  closes : List (Side × Bytes)
  shutdowns : Side → Nat

namespace SocksSession

def lift {α : Type} (r : Except Fault α) : Except Crash α := r.mapError .fault

variable (s : SocksSession)

/-- What an operation on a connection queued goes to the queue of the loop. -/
def put (side : Side) (c : TcpConnection) : SocksSession :=
  { s with
    conn := Function.update s.conn side { c with pendingFunctors := [] }
    pendingFunctors := s.pendingFunctors ++ c.pendingFunctors.map (side, ·) }

def queueInLoop (side : Side) (f : Functor) : SocksSession :=
  { s with pendingFunctors := s.pendingFunctors ++ [(side, f)] }

def updateTraffic (side : Side) (f : Traffic → Traffic) : SocksSession :=
  { s with traffic := Function.update s.traffic side (f (s.traffic side)) }

def shutdown (side : Side) : SocksSession :=
  let down := (s.conn side).state = .kDisconnected
  { s.put side (s.conn side).shutdown with
    shutdowns := Function.update s.shutdowns side (s.shutdowns side + if down then 0 else 1) }

/-- The connection callbacks of a connection that is down. -/
def connectionCallback : Side → SocksSession
  | .server => if s.connection then s.shutdown .client else s
  | .client => if s.context then s.shutdown .server else s

/-- `TcpServer::removeConnection` and `TcpClient::removeConnection`. -/
def removeConnection : Side → Except Crash SocksSession
  | .server => .ok { s with removing := true }
  | .client => do
    lift (check (s.connection = true))
    .ok ({ s with connection := false }.queueInLoop .client .connectDestroyed)

/-- The two callbacks that `handleClose` ends with. -/
def goesDown (side : Side) : Except Crash SocksSession :=
  let s := { s with closes := s.closes ++ [(side, (s.conn side).log.accepted)] }
  (s.connectionCallback side).removeConnection side

def isHighWater : Functor → Bool
  | .highWaterMarkCallback _ => true
  | _ => false

/-- `send(buff)` on the opposite connection. -/
def relay (side : Side) (w : WriteResult) : Except Crash SocksSession := do
  let buff := (s.conn side).inputBuffer
  let peer := s.conn side.other
  if peer.state = .kConnected then
    let data ← lift (load buff.buffer buff.peek buff.readableBytes)
    let peer ← lift (peer.sendInLoop data w)
    let crossing := if peer.pendingFunctors.any isHighWater then (s.traffic side).read
      else (s.traffic side.other).crossing
    .ok (((s.updateTraffic side.other ({ · with crossing })).put side.other peer).put side
      { s.conn side with inputBuffer := buff.retrieveAll })
  else .ok s

/-- With a context. -/
def onServerMessage (w : WriteResult) : Except Crash SocksSession :=
  if s.connection then s.relay .server w else .error .nullPointer

def onClientMessage (w : WriteResult) : Except Crash SocksSession :=
  if s.context then s.relay .client w else .error .aborted

def messageCallback (side : Side) (w : WriteResult) : Except Crash SocksSession :=
  match side with
  | .server => s.onServerMessage w
  | .client => s.onClientMessage w

def onHighWaterMark (side : Side) : Except Crash SocksSession := do
  let c ← lift (s.conn side).stopReadInLoop
  .ok ((s.put side c).updateTraffic side ({ · with congested := true }))

def onWriteComplete (side : Side) : Except Crash SocksSession := do
  let c ← lift (s.conn side).startReadInLoop
  .ok ((s.put side c).updateTraffic side ({ · with congested := false }))

/-- The history of a read. -/
def countRead (side : Side) (n : Nat) : SocksSession :=
  (s.updateTraffic side fun t => { t with read := t.read + n }).updateTraffic side.other fun t =>
    { t with overrun := t.overrun + if t.congested then n else 0 }

/-- The state in which a read of `n` bytes makes its callbacks. -/
def received (side : Side) (inputBuffer : Buffer) (n : Nat) : SocksSession :=
  (s.put side { s.conn side with inputBuffer }).countRead side n

def handleClose (side : Side) : Except Crash SocksSession := do
  let c ← lift (s.conn side).handleClose
  (s.put side c).goesDown side

def handleRead (side : Side) (read : Option Bytes) (w : WriteResult) :
    Except Crash SocksSession := do
  let inputBuffer ← lift ((s.conn side).inputBuffer.readFd read)
  let s := s.received side inputBuffer (read.getD []).length
  match read with
  | none => .ok s
  | some [] => s.handleClose side
  | some _ => s.messageCallback side w

def handleWrite (side : Side) (w : WriteResult) : Except Crash SocksSession := do
  let c ← lift ((s.conn side).handleWrite w)
  .ok (s.put side c)

def handleEvent (d : Due) (w : WriteResult) : Except Crash SocksSession :=
  match d.callback with
  | .close => s.handleClose d.side
  | .error => .ok s
  | .read => s.handleRead d.side d.read w
  | .write => s.handleWrite d.side w

def connectDestroyed (side : Side) : Except Crash SocksSession := do
  let s ← if (s.conn side).state = .kConnected then do
      let c ← lift (s.conn side).disconnect
      .ok ((s.put side c).connectionCallback side)
    else .ok s
  let c ← lift (s.conn side).removeChannel
  .ok (s.put side c)

def forceCloseInLoop (side : Side) : Except Crash SocksSession :=
  if (s.conn side).state = .kConnected ∨ (s.conn side).state = .kDisconnecting then
    s.handleClose side
  else .ok s

def runFunctor (side : Side) (f : Functor) (w : WriteResult) : Except Crash SocksSession :=
  match f with
  | .sendInLoop message => do
    let c ← lift ((s.conn side).sendInLoop message w)
    .ok (s.put side c)
  | .writeCompleteCallback => s.onWriteComplete side
  | .highWaterMarkCallback _ => s.onHighWaterMark side
  | .forceCloseInLoop => s.forceCloseInLoop side
  | .connectDestroyed => s.connectDestroyed side

/-- The steps of the loop of both connections, and what the base loop does. -/
inductive Event
  | poll (ready : List Ready)
  | handle (w : WriteResult)
  | doPendingFunctors
  | functor (w : WriteResult)
  | removeConnectionInLoop

/-- `write(2)` takes no more than it is given. -/
def Takes (d : Due) (w : WriteResult) : Prop :=
  match d.callback with
  | .write => w.taken ≤ (s.conn d.side).outputBuffer.readableBytes
  | .read =>
    w.taken ≤ (s.conn d.side).inputBuffer.readableBytes + (d.read.getD []).length
  | _ => True

def Polls (r : Ready) : Prop :=
  System.Reports r.revents (s.conn r.side).channel.interest ∧
    (r.read.getD []).length ≤ (s.conn r.side).inputBuffer.iovBytes

def enabled : Event → Prop
  | .poll ready => s.polled = false ∧ s.functors = [] ∧ (ready.map Ready.side).Nodup ∧
    ∀ r ∈ ready, s.Polls r
  | .handle w => ∃ d ∈ s.due.head?, s.Takes d w
  | .doPendingFunctors => s.polled = true ∧ s.due = []
  | .functor w => s.functors ≠ [] ∧ System.SendsFunctor w (s.functors.map Prod.snd)
  | .removeConnectionInLoop => s.removing = true

def step (s : SocksSession) : Event → Except Crash SocksSession
  | .poll ready => .ok { s with
      polled := true
      due := ready.flatMap Ready.due
      traffic := fun side => { s.traffic side with read := 0 } }
  | .handle w =>
    match s.due with
    | [] => .ok s
    | d :: due => handleEvent { s with due } d w
  | .doPendingFunctors =>
    .ok { s with polled := false, functors := s.pendingFunctors, pendingFunctors := [] }
  | .functor w =>
    match s.functors with
    | [] => .ok s
    | (side, f) :: functors => runFunctor { s with functors } side f w
  | .removeConnectionInLoop =>
    .ok ({ s with removing := false }.queueInLoop .server .connectDestroyed)

def machine : Machine SocksSession Event Crash where
  enabled := enabled
  step := step

/-- `serverConn` when the outbound connection comes up: nothing has been sent on it, and behind
the request at most 512 bytes have come. -/
structure Requested (c : TcpConnection) : Prop where
  state : c.state = .kConnected
  inputBuffer : c.inputBuffer.Valid
  early : c.inputBuffer.readableBytes ≤ 512
  outputBuffer : c.outputBuffer.Valid
  unsent : c.outputBuffer.readableBytes = 0
  channel : c.channel.Consistent
  highWaterMark : c.highWaterMark = maxBuffer
  callbacks : c.highWaterMarkCallback = true ∧ c.writeCompleteCallback = true
  pendingFunctors : c.pendingFunctors = []

/-- The session once the outbound connection has its callbacks and both have their contexts. -/
def opened (server client : TcpConnection) (due : List Due) : SocksSession where
  conn
    | .server => server
    | .client => { client with highWaterMarkCallback := true, highWaterMark := maxBuffer }
  connection := true
  context := true
  removing := false
  polled := true
  due := due
  functors := []
  pendingFunctors := []
  traffic _ := ⟨0, 0, false, 0⟩
  closes := []
  shutdowns _ := 0

/-- `onClientConnection`, when the outbound connection is up. -/
def onClientConnection (server client : TcpConnection) (address : InetAddress) (due : List Due)
    (w : WriteResult) : Except Crash SocksSession := do
  let s := opened server client due
  let c ← lift (server.send (Sock4aServer.granted address) w)
  .ok (s.put .server c)

/-- The states in which sessions begin. In the iteration in which the outbound connection comes
up, the callbacks of `serverConn` may still be due. -/
def Starts (s : SocksSession) : Prop :=
  ∃ (server client₀ client : TcpConnection) (address : InetAddress) (ready : List Ready)
    (w : WriteResult), Requested server ∧
    (ready = [] ∨ ∃ r, ready = [r] ∧ r.side = .server ∧
      System.Reports r.revents server.channel.interest ∧
      (r.read.getD []).length ≤ server.inputBuffer.iovBytes) ∧
    TcpConnection.new true false (64 * 1024 * 1024) = .ok client₀ ∧
    client₀.connectEstablished = .ok client ∧
    (Sock4aServer.granted address).length = 12 ∧ w.taken ≤ 12 ∧
    onClientConnection server client address (ready.flatMap Ready.due) w = .ok s

end SocksSession

end Muduo.Examples
