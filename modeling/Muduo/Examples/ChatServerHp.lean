import Muduo.Lib.FanOut
import Muduo.Lib.OrderedSet
import Muduo.Net.TcpConnection

namespace Muduo.Examples
open Muduo.Lib Muduo.Net

namespace ChatServerHp

/-- An `EventLoop`, by its address. -/
abbrev LoopPtr := Nat

/-- A `TcpConnection`, by its address. -/
abbrev ConnPtr := Nat

/-- A message that `onStringMessage` was called with: who sent it, on which loop it was received,
and after how many others. -/
structure Message where
  sender : ConnPtr
  source : LoopPtr
  serial : Nat
  text : Bytes
  deriving DecidableEq

/-- What is put into `pendingFunctors_` of the loops. -/
inductive Functor
  | connectEstablished (conn : ConnPtr)
  | forceCloseInLoop (conn : ConnPtr)
  | removeConnectionInLoop (conn : ConnPtr)
  | connectDestroyed (conn : ConnPtr)
  | onDistributeMessage (message : Message)
  deriving DecidableEq

/-- A loop is in `onStringMessage`, with part of `loops_` left, or anywhere else. -/
inductive Place
  | idle
  | distributing (message : Message) (rest : List LoopPtr)
  deriving DecidableEq

/-- A loop, with `LocalConnection::instance()` of its thread. -/
structure Loop where
  localConnections : OrderedSet ConnPtr
  pendingFunctors : List Functor
  place : Place

structure Client where
  loop : LoopPtr
  state : StateE
  deriving DecidableEq

/-- `connectionCallback_` of a connection that is up or down, on its loop; and a run of
`onDistributeMessage`, with the connections it called `Codec::send` for. -/
inductive Action
  | up (l : LoopPtr) (conn : ConnPtr)
  | down (l : LoopPtr) (conn : ConnPtr)
  | onDistributeMessage (l : LoopPtr) (message : Message) (receivers : List ConnPtr)
  deriving DecidableEq

end ChatServerHp

open ChatServerHp

/-- The loops are objects, each at an address of its own. -/
structure EventLoopThreadPool where
  baseLoop : LoopPtr
  loops : List LoopPtr
  next : Nat
  distinct : (baseLoop :: loops).Nodup
  next_lt : loops ≠ [] → next < loops.length

namespace EventLoopThreadPool

/-- `start` with the loops of its threads. -/
def start (baseLoop : LoopPtr) (loops : List LoopPtr) (h : (baseLoop :: loops).Nodup) :
    EventLoopThreadPool :=
  ⟨baseLoop, loops, 0, h, fun hne => List.length_pos_iff.mpr hne⟩

def getAllLoops (p : EventLoopThreadPool) : List LoopPtr :=
  if p.loops = [] then [p.baseLoop] else p.loops

def getNextLoop (p : EventLoopThreadPool) : LoopPtr × EventLoopThreadPool :=
  if h : p.loops = [] then (p.baseLoop, p)
  else
    (p.loops.get ⟨p.next, p.next_lt h⟩,
      { p with
        next := if p.loops.length ≤ p.next + 1 then 0 else p.next + 1
        next_lt := fun hne => by
          have := List.length_pos_iff.mpr hne
          split <;> omega })

end EventLoopThreadPool

/-- The server and its loops. The messages received, and what was done, are history. -/
structure ChatServerHp where
  threadPool : EventLoopThreadPool
  loops : OrderedSet LoopPtr
  clients : ConnPtr → Option Client
  loop : LoopPtr → Loop
  received : List Message
  history : List Action

namespace ChatServerHp

variable (s : ChatServerHp)

def onThreadInit (loop : LoopPtr) : ChatServerHp := { s with loops := s.loops.insert loop }

/-- `start`: the thread pool calls `onThreadInit` for each of its loops. -/
def start (threadPool : EventLoopThreadPool) : ChatServerHp :=
  threadPool.getAllLoops.foldl onThreadInit
    ⟨threadPool, .empty, fun _ => none, fun _ => ⟨.empty, [], .idle⟩, [], []⟩

def setLoop (l : LoopPtr) (loop : Loop) : ChatServerHp :=
  { s with loop := Function.update s.loop l loop }

def setClient (conn : ConnPtr) (client : Client) : ChatServerHp :=
  { s with clients := Function.update s.clients conn (some client) }

def queueInLoop (l : LoopPtr) (cb : Functor) : ChatServerHp :=
  s.setLoop l { s.loop l with pendingFunctors := (s.loop l).pendingFunctors ++ [cb] }

/-- `onConnection`; the server is told of a connection on the loop of the connection. -/
def onConnection (conn : ConnPtr) (client : Client) : ChatServerHp :=
  let loop := s.loop client.loop
  if client.state = .kConnected then
    { s.setLoop client.loop { loop with localConnections := loop.localConnections.insert conn } with
      history := s.history ++ [.up client.loop conn] }
  else
    { s.setLoop client.loop { loop with localConnections := loop.localConnections.erase conn } with
      history := s.history ++ [.down client.loop conn] }

def onDistributeMessage (l : LoopPtr) (message : Message) : ChatServerHp :=
  { s with
    history := s.history ++
      [.onDistributeMessage l message (s.loop l).localConnections.elems] }

/-- `onStringMessage` up to its loop over `loops_`. -/
def onStringMessage (conn : ConnPtr) (client : Client) (text : Bytes) : ChatServerHp :=
  let message : Message := ⟨conn, client.loop, s.received.length, text⟩
  { s.setLoop client.loop
      { s.loop client.loop with place := .distributing message s.loops.elems } with
    received := s.received ++ [message] }

/-- One turn of the loop over `loops_` on the loop `l`, with `runInLoop`. -/
def proceed (l : LoopPtr) : ChatServerHp :=
  match (s.loop l).place with
  | .idle => s
  | .distributing _ [] => s.setLoop l { s.loop l with place := .idle }
  | .distributing message (next :: rest) =>
    let s := s.setLoop l { s.loop l with place := .distributing message rest }
    if next = l then s.onDistributeMessage l message
    else s.queueInLoop next (.onDistributeMessage message)

def connectEstablished (conn : ConnPtr) (client : Client) : Except Fault ChatServerHp := do
  check (client.state = .kConnecting)
  let client := { client with state := .kConnected }
  .ok ((s.setClient conn client).onConnection conn client)

/-- `TcpServer::newConnection`. -/
def newConnection (conn : ConnPtr) : Except Fault ChatServerHp :=
  let (ioLoop, threadPool) := s.threadPool.getNextLoop
  let client : Client := ⟨ioLoop, .kConnecting⟩
  let s := { s with threadPool }.setClient conn client
  if ioLoop = threadPool.baseLoop then s.connectEstablished conn client
  else .ok (s.queueInLoop ioLoop (.connectEstablished conn))

def removeConnectionInLoop (conn : ConnPtr) (client : Client) : ChatServerHp :=
  s.queueInLoop client.loop (.connectDestroyed conn)

/-- `TcpServer::removeConnection`, with `runInLoop`. -/
def removeConnection (conn : ConnPtr) (client : Client) : ChatServerHp :=
  if client.loop = s.threadPool.baseLoop then s.removeConnectionInLoop conn client
  else s.queueInLoop s.threadPool.baseLoop (.removeConnectionInLoop conn)

/-- `handleClose`, with `connectionCallback_` and `closeCallback_`. -/
def handleClose (conn : ConnPtr) (client : Client) : Except Fault ChatServerHp := do
  check (client.state = .kConnected ∨ client.state = .kDisconnecting)
  let client := { client with state := .kDisconnected }
  .ok (((s.setClient conn client).onConnection conn client).removeConnection conn client)

def forceCloseInLoop (conn : ConnPtr) (client : Client) : Except Fault ChatServerHp :=
  if client.state = .kConnected ∨ client.state = .kDisconnecting then s.handleClose conn client
  else .ok s

/-- `forceClose`, which the codec calls at a length it refuses. -/
def forceClose (conn : ConnPtr) (client : Client) : ChatServerHp :=
  if client.state = .kConnected ∨ client.state = .kDisconnecting then
    (s.setClient conn { client with state := .kDisconnecting }).queueInLoop client.loop
      (.forceCloseInLoop conn)
  else s

def connectDestroyed (conn : ConnPtr) (client : Client) : ChatServerHp :=
  if client.state = .kConnected then
    let client := { client with state := .kDisconnected }
    (s.setClient conn client).onConnection conn client
  else s

/-- The loop `l` runs the functor it has taken off its queue. -/
def run (l : LoopPtr) : Functor → Except Fault ChatServerHp
  | .connectEstablished conn => (s.clients conn).elim (.ok s) (s.connectEstablished conn)
  | .forceCloseInLoop conn => (s.clients conn).elim (.ok s) (s.forceCloseInLoop conn)
  | .removeConnectionInLoop conn =>
    (s.clients conn).elim (.ok s) fun client => .ok (s.removeConnectionInLoop conn client)
  | .connectDestroyed conn =>
    (s.clients conn).elim (.ok s) fun client => .ok (s.connectDestroyed conn client)
  | .onDistributeMessage message => .ok (s.onDistributeMessage l message)

/-- `refuse` is `Codec::onMessage` at a length it does not admit. -/
inductive Event
  | newConnection (conn : ConnPtr)
  | onStringMessage (conn : ConnPtr) (text : Bytes)
  | proceed (l : LoopPtr)
  | refuse (conn : ConnPtr)
  | handleClose (conn : ConnPtr)
  | functor (l : LoopPtr)

/-- The channel of a connection reports events, and its loop gets to them. -/
def Reports (client : Client) : Prop :=
  (client.state = .kConnected ∨ client.state = .kDisconnecting) ∧
    (s.loop client.loop).place = .idle

/-- A connection is a new object. A loop takes a further event or functor when it is through with
`onStringMessage`. -/
def enabled : Event → Prop
  | .newConnection conn =>
    s.clients conn = none ∧ (s.loop s.threadPool.baseLoop).place = .idle
  | .onStringMessage conn _ => ∃ client ∈ s.clients conn, s.Reports client
  | .proceed l => (s.loop l).place ≠ .idle
  | .refuse conn => ∃ client ∈ s.clients conn, s.Reports client
  | .handleClose conn => ∃ client ∈ s.clients conn, s.Reports client
  | .functor l => (s.loop l).place = .idle ∧ (s.loop l).pendingFunctors ≠ []

def step : Event → Except Fault ChatServerHp
  | .newConnection conn => s.newConnection conn
  | .onStringMessage conn text =>
    (s.clients conn).elim (.ok s) fun client => .ok (s.onStringMessage conn client text)
  | .proceed l => .ok (s.proceed l)
  | .refuse conn => (s.clients conn).elim (.ok s) fun client => .ok (s.forceClose conn client)
  | .handleClose conn => (s.clients conn).elim (.ok s) (s.handleClose conn)
  | .functor l =>
    match (s.loop l).pendingFunctors with
    | [] => .ok s
    | cb :: rest => (s.setLoop l { s.loop l with pendingFunctors := rest }).run l cb

def machine : Machine ChatServerHp Event Fault where
  enabled := enabled
  step := step

instance (client : Client) : Decidable (s.Reports client) := inferInstanceAs (Decidable (_ ∧ _))

instance (s : ChatServerHp) : ∀ e, Decidable (machine.enabled s e)
  | .newConnection _ | .functor _ => inferInstanceAs (Decidable (_ ∧ _))
  | .onStringMessage conn _ | .refuse conn | .handleClose conn =>
    inferInstanceAs (Decidable (∃ client ∈ s.clients conn, s.Reports client))
  | .proceed _ => inferInstanceAs (Decidable (_ ≠ _))

end ChatServerHp

end Muduo.Examples
