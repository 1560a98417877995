import Muduo.Net.Channel

namespace Muduo.Net
open Muduo.Lib

namespace Connector

inductive States
  | kDisconnected
  | kConnecting
  | kConnected
  deriving DecidableEq, Repr

def kMaxRetryDelayMs : Nat := 30 * 1000

def kInitRetryDelayMs : Nat := 500

/-- `savedErrno`, as `sockets::connect` leaves it. -/
inductive Errno
  | zero
  | EINPROGRESS
  | EINTR
  | EISCONN
  | EAGAIN
  | EADDRINUSE
  | EADDRNOTAVAIL
  | ECONNREFUSED
  | ENETUNREACH
  | EACCES
  | EPERM
  | EAFNOSUPPORT
  | EALREADY
  | EBADF
  | EFAULT
  | ENOTSOCK
  | unexpected
  deriving DecidableEq, Repr

/-- `channel_` and the socket it watches. Every socket has a number of its own. -/
structure ConnectChannel where
  sockfd : Nat
  channel : Channel
  deriving DecidableEq, Repr

/-- What is queued in the loop; `queuedFor` is the history of a `resetChannel`. -/
inductive Functor
  | stopInLoop
  | resetChannel (queuedFor : Nat)
  | forceCloseInLoop (conn : Nat)
  deriving DecidableEq, Repr

end Connector

open Connector in
/-- A client with its connector in their loop. `connection` is the connection that is up, under
its socket; `created`, `handed`, `closed` and `destroyed` are the history of the sockets and of
the channels. -/
structure TcpClient where
  retry : Bool
  connect : Bool
  connection : Option Nat
  connect_ : Bool
  state : States
  channel : Option ConnectChannel
  retryDelayMs : Nat
  callingPendingFunctors : Bool
  functors : List Functor
  pendingFunctors : List Functor
  timers : List Nat
  connectorActive : Bool
  connectionActive : Bool
  created : Nat
  handed : List Nat
  closed : List Nat
  destroyed : List (ConnectChannel × Nat)
  deriving DecidableEq, Repr

def TcpClient.newConnection (s : TcpClient) (sockfd : Nat) : TcpClient :=
  { s with connection := some sockfd, handed := s.handed ++ [sockfd] }

namespace Connector

variable (s : TcpClient)

def setState (st : States) : TcpClient := { s with state := st }

def queueInLoop (f : Functor) : TcpClient :=
  { s with pendingFunctors := s.pendingFunctors ++ [f] }

/-- `sockets::close`. -/
def close (sockfd : Nat) : TcpClient := { s with closed := s.closed ++ [sockfd] }

def retry (sockfd : Nat) : TcpClient :=
  let s := setState (close s sockfd) .kDisconnected
  if s.connect_ then
    { s with
      timers := s.timers ++ [s.retryDelayMs]
      retryDelayMs := min (s.retryDelayMs * 2) kMaxRetryDelayMs }
  else s

def connecting (sockfd : Nat) : Except Fault TcpClient := do
  let s := setState s .kConnecting
  check (s.channel = none)
  let channel ← Channel.new.enableWriting
  .ok { s with channel := some ⟨sockfd, channel⟩ }

def connect (savedErrno : Errno) : Except Fault TcpClient :=
  let sockfd := s.created
  let s := { s with created := s.created + 1 }
  match savedErrno with
  | .zero | .EINPROGRESS | .EINTR | .EISCONN => connecting s sockfd
  | .EAGAIN | .EADDRINUSE | .EADDRNOTAVAIL | .ECONNREFUSED | .ENETUNREACH => .ok (retry s sockfd)
  | .EACCES | .EPERM | .EAFNOSUPPORT | .EALREADY | .EBADF | .EFAULT | .ENOTSOCK =>
    .ok (close s sockfd)
  | .unexpected => .ok (close s sockfd)

def startInLoop (savedErrno : Errno) : Except Fault TcpClient := do
  check (s.state = .kDisconnected)
  if s.connect_ then connect s savedErrno else .ok s

def start (savedErrno : Errno) : Except Fault TcpClient :=
  startInLoop { s with connect_ := true } savedErrno

def stop : TcpClient := queueInLoop { s with connect_ := false } .stopInLoop

def restart (savedErrno : Errno) : Except Fault TcpClient :=
  startInLoop
    { setState s .kDisconnected with retryDelayMs := kInitRetryDelayMs, connect_ := true }
    savedErrno

def removeAndResetChannel : Except Fault (Nat × TcpClient) :=
  match s.channel with
  | none => .error .useAfterFree
  | some ⟨sockfd, channel⟩ => do
    let channel ← channel.disableAll
    let channel ← channel.remove
    .ok (sockfd, queueInLoop { s with channel := some ⟨sockfd, channel⟩ } (.resetChannel sockfd))

/-- `channel_.reset()` with the assertions of `~Channel`. -/
def resetChannel (queuedFor : Nat) : Except Fault TcpClient :=
  match s.channel with
  | none => .ok s
  | some c => do
    check (c.channel.addedToLoop = false)
    check (c.channel.registered = false)
    .ok { s with channel := none, destroyed := s.destroyed ++ [(c, queuedFor)] }

def stopInLoop : Except Fault TcpClient :=
  if s.state = .kConnecting then do
    let s := setState s .kDisconnected
    let (sockfd, s) ← removeAndResetChannel s
    .ok (retry s sockfd)
  else .ok s

def handleWrite (err : Nat) (isSelfConnect : Bool) : Except Fault TcpClient :=
  if s.state = .kConnecting then do
    let (sockfd, s) ← removeAndResetChannel s
    if err ≠ 0 then .ok (retry s sockfd)
    else if isSelfConnect then .ok (retry s sockfd)
    else
      let s := setState s .kConnected
      if s.connect_ then .ok (s.newConnection sockfd) else .ok (close s sockfd)
  else do
    check (s.state = .kDisconnected)
    .ok s

def handleError : Except Fault TcpClient :=
  if s.state = .kConnecting then do
    let (sockfd, s) ← removeAndResetChannel s
    .ok (retry s sockfd)
  else .ok s

/-- The connector sets no close and no read callback. -/
def callback (err : Nat) (isSelfConnect : Bool) (s : TcpClient) :
    Channel.Callback → Except Fault TcpClient
  | .close | .read => .ok s
  | .error => handleError s
  | .write => handleWrite s err isSelfConnect

end Connector

namespace TcpClient
open Connector (Functor Errno)

variable (s : TcpClient)

def initial : TcpClient where
  retry := false
  connect := true
  connection := none
  connect_ := false
  state := .kDisconnected
  channel := none
  retryDelayMs := Connector.kInitRetryDelayMs
  callingPendingFunctors := true
  functors := []
  pendingFunctors := []
  timers := []
  connectorActive := false
  connectionActive := false
  created := 0
  handed := []
  closed := []
  destroyed := []

/-- The close callback of the connection. -/
def removeConnection (conn : Nat) (savedErrno : Errno) : Except Fault TcpClient := do
  check (s.connection = some conn)
  let s := { s with connection := none }
  if s.retry && s.connect then Connector.restart s savedErrno else .ok s

/-- What happens in the loop's thread. `errno` is what `connect(2)` leaves if it is called,
`err` and `isSelfConnect` are what the connecting socket answers. -/
inductive Event
  | enableRetry
  | connect (savedErrno : Errno)
  | disconnect
  | stop
  | startConnector (savedErrno : Errno)
  | stopConnector
  | forceClose
  | poll (connector connection : Bool)
  | handleConnector (revents : Revents) (err : Nat) (isSelfConnect : Bool)
  | handleClose (savedErrno : Errno)
  | timer (i : Nat) (savedErrno : Errno)
  | doPendingFunctors
  | functor (savedErrno : Errno)
  deriving DecidableEq, Repr

/-- An iteration polls, handles the active channels and the timers, and runs the functors that
were pending; the user's calls come at any time. A channel is reported only while it is in the
poller, and handled once. -/
def enabled (s : TcpClient) : Event → Prop
  | .enableRetry | .connect _ | .disconnect | .stop | .startConnector _ | .stopConnector => True
  | .forceClose => s.connection.isSome
  | .poll connector connection =>
    s.callingPendingFunctors = true ∧ s.functors = [] ∧
      (connector = true → ∃ c ∈ s.channel, c.channel.interest.isSome) ∧
      (connection = true → s.connection.isSome)
  | .handleConnector _ _ _ => s.callingPendingFunctors = false ∧ s.connectorActive = true
  | .handleClose _ => s.callingPendingFunctors = false ∧ s.connectionActive = true
  | .timer i _ => s.callingPendingFunctors = false ∧ i < s.timers.length
  | .doPendingFunctors => s.callingPendingFunctors = false ∧ s.connectorActive = false
  | .functor _ => s.callingPendingFunctors = true ∧ s.functors ≠ []

/-- `forceCloseInLoop` does nothing on a connection that is down. -/
def runFunctor (savedErrno : Errno) : Functor → Except Fault TcpClient
  | .stopInLoop => Connector.stopInLoop s
  | .resetChannel queuedFor => Connector.resetChannel s queuedFor
  | .forceCloseInLoop conn =>
    if s.connection = some conn then s.removeConnection conn savedErrno else .ok s

def step (s : TcpClient) : Event → Except Fault TcpClient
  | .enableRetry => .ok { s with retry := true }
  | .connect savedErrno => Connector.start { s with connect := true } savedErrno
  | .disconnect => .ok { s with connect := false }
  | .stop => .ok (Connector.stop { s with connect := false })
  | .startConnector savedErrno => Connector.start s savedErrno
  | .stopConnector => .ok (Connector.stop s)
  | .forceClose =>
    match s.connection with
    | some conn => .ok (Connector.queueInLoop s (.forceCloseInLoop conn))
    | none => .ok s
  | .poll connector connection =>
    .ok { s with
      callingPendingFunctors := false
      connectorActive := connector
      connectionActive := connection }
  | .handleConnector revents err isSelfConnect =>
    (Channel.handleEventWithGuard revents).foldlM (Connector.callback err isSelfConnect)
      { s with connectorActive := false }
  | .handleClose savedErrno =>
    match s.connection with
    | some conn => removeConnection { s with connectionActive := false } conn savedErrno
    | none => .ok s
  | .timer i savedErrno =>
    Connector.startInLoop { s with timers := s.timers.eraseIdx i } savedErrno
  | .doPendingFunctors =>
    .ok { s with
      callingPendingFunctors := true
      functors := s.pendingFunctors
      pendingFunctors := []
      connectionActive := false }
  | .functor savedErrno =>
    match s.functors with
    | f :: fs => runFunctor { s with functors := fs } savedErrno f
    | [] => .ok s

def machine : Machine TcpClient Event Fault where
  enabled := enabled
  step := step

end TcpClient

end Muduo.Net
