import Mathlib.Logic.Function.Basic
import Muduo.Net.TcpConnection

namespace Muduo.Net
open Muduo.Lib

/-- What `InetAddress::toIpPort` gives: an address of at most 45 characters, a colon, a port. -/
structure IpPort where
  text : Bytes
  length_le : text.length ≤ 51

/-- A loop of the server: 0 is the base loop, the others are those of the thread pool. -/
abbrev LoopId := Nat

/-- What a functor in a loop of the server does to its connection. -/
inductive Task
  | connectEstablished
  | removeConnectionInLoop
  | own (f : Functor)
  deriving DecidableEq, Repr

inductive Milestone
  | newConnection
  | connectEstablished
  | down
  | erased
  | connectDestroyed
  deriving DecidableEq, Repr

/-- A connection that was accepted, with what happened to it so far and on which loops. -/
structure ServerConnection where
  name : Bytes
  loop : LoopId
  conn : TcpConnection
  history : List (Milestone × LoopId)
  deriving DecidableEq, Repr

/-- The server and its loops. Each connection has its number, by which functors and callbacks
hold it; `accepted` has those of all connections there ever were. A loop has its pending functors,
the callbacks its channels still have to make, and the connection whose `handleClose` is in
`connectionCallback_`, before `closeCallback_`. -/
structure TcpServer where
  name : Bytes
  ipPort : IpPort
  loops : Nat
  next : Nat
  nextConnId : Nat
  connections : Bytes → Option Nat
  accepted : Nat → Option ServerConnection
  pendingFunctors : LoopId → List (Nat × Task)
  callbacks : LoopId → List (Nat × Channel.Callback)
  closing : LoopId → Option Nat

inductive ServerEvent
  | newConnection (writeComplete highWater : Bool) (mark : Nat)
  | call (k : Nat) (c : Call)
  | poll (k : Nat) (r : Revents)
  | handle (l : LoopId) (read : Option Bytes) (w : WriteResult)
  | closeCallback (l : LoopId)
  | functor (l : LoopId) (w : WriteResult)

/-- `connectDestroyed` as one step; in its callback the connection is down already. -/
def TcpConnection.connectDestroyed (c : TcpConnection) : Except Fault TcpConnection :=
  if c.state = .kConnected then do
    let c ← c.disconnect
    c.removeChannel
  else c.removeChannel

def assertInLoopThread (current loop : LoopId) : Except Fault Unit :=
  if current = loop then .ok () else .error .fatal

namespace TcpServer

variable (s : TcpServer)

/-- A started server with a number of IO loops. -/
def new (name : Bytes) (ipPort : IpPort) (loops : Nat) : TcpServer where
  name := name
  ipPort := ipPort
  loops := loops
  next := 0
  nextConnId := 1
  connections := fun _ => none
  accepted := fun _ => none
  pendingFunctors := fun _ => []
  callbacks := fun _ => []
  closing := fun _ => none

/-- `EventLoopThreadPool::getNextLoop`. -/
def getNextLoop : LoopId × TcpServer :=
  if s.loops = 0 then (0, s)
  else (s.next + 1, { s with next := if s.loops ≤ s.next + 1 then 0 else s.next + 1 })

def connName (id : Nat) : Bytes :=
  s.name ++ snprintf 64 (ascii "-" ++ s.ipPort.text ++ ascii "#" ++ decimal id)

def queueInLoop (l : LoopId) (f : Nat × Task) : TcpServer :=
  { s with pendingFunctors := Function.update s.pendingFunctors l (s.pendingFunctors l ++ [f]) }

/-- Connection `k` goes from `r` to `c` on loop `l`. What it queued goes to its loop. -/
def record (l : LoopId) (k : Nat) (r : ServerConnection) (ms : List (Milestone × LoopId))
    (c : TcpConnection) : TcpServer :=
  let downs := if c.log.downs = r.conn.log.downs then [] else [(.down, l)]
  { s with
    accepted := Function.update s.accepted k (some { r with
      conn := { c with pendingFunctors := [] }, history := r.history ++ ms ++ downs })
    pendingFunctors := Function.update s.pendingFunctors r.loop
      (s.pendingFunctors r.loop ++ c.pendingFunctors.map fun f => (k, .own f))
    closing := if c.log.closeCallbacks = r.conn.log.closeCallbacks then s.closing
      else Function.update s.closing l (some k) }

/-- A member function of connection `k` runs on loop `l`. -/
def onConnection (l : LoopId) (k : Nat) (ms : List (Milestone × LoopId))
    (op : TcpConnection → Except Fault TcpConnection) : Except Fault TcpServer :=
  match s.accepted k with
  | none => .ok s
  | some r => do
    assertInLoopThread l r.loop
    let c ← op r.conn
    .ok (s.record l k r ms c)

def connectEstablished (l : LoopId) (k : Nat) : Except Fault TcpServer :=
  s.onConnection l k [(.connectEstablished, l)] TcpConnection.connectEstablished

/-- `newConnection`, on the base loop. -/
def newConnection (writeComplete highWater : Bool) (mark : Nat) : Except Fault TcpServer := do
  let (ioLoop, s) := s.getNextLoop
  let k := s.nextConnId
  let conn ← TcpConnection.new writeComplete highWater mark
  let s := { s with
    nextConnId := k + 1
    connections := Function.update s.connections (s.connName k) (some k)
    accepted := Function.update s.accepted k
      (some ⟨s.connName k, ioLoop, conn, [(.newConnection, 0)]⟩) }
  if ioLoop = 0 then s.connectEstablished 0 k else .ok (s.queueInLoop ioLoop (k, .connectEstablished))

def removeConnectionInLoop (l : LoopId) (k : Nat) : Except Fault TcpServer :=
  match s.accepted k with
  | none => .ok s
  | some r => do
    assertInLoopThread l 0
    let n := if s.connections r.name = none then 0 else 1
    check (n = 1)
    let s := { s with
      connections := Function.update s.connections r.name none
      accepted := Function.update s.accepted k
        (some { r with history := r.history ++ [(Milestone.erased, l)] }) }
    .ok (s.queueInLoop r.loop (k, .own .connectDestroyed))

/-- `closeCallback_`, called on loop `l`. -/
def removeConnection (l : LoopId) (k : Nat) : Except Fault TcpServer :=
  if l = 0 then s.removeConnectionInLoop l k
  else .ok (s.queueInLoop 0 (k, .removeConnectionInLoop))

def runFunctor (l : LoopId) (w : WriteResult) (k : Nat) : Task → Except Fault TcpServer
  | .connectEstablished => s.connectEstablished l k
  | .removeConnectionInLoop => s.removeConnectionInLoop l k
  | .own .connectDestroyed =>
    s.onConnection l k [(.connectDestroyed, l)] TcpConnection.connectDestroyed
  | .own f => s.onConnection l k [] fun c => System.functorStep c w f

def step : ServerEvent → Except Fault TcpServer
  | .newConnection writeComplete highWater mark => s.newConnection writeComplete highWater mark
  | .call k c =>
    match s.accepted k with
    | none => .ok s
    | some r => s.onConnection r.loop k [] fun conn => System.callStep conn c
  | .poll k r =>
    match s.accepted k with
    | none => .ok s
    | some rc => .ok { s with
      callbacks := Function.update s.callbacks rc.loop
        ((Channel.handleEventWithGuard r).map (k, ·)) }
  | .handle l read w =>
    match s.callbacks l with
    | [] => .ok s
    | (k, callback) :: rest =>
      onConnection { s with callbacks := Function.update s.callbacks l rest } l k [] fun c =>
        System.callbackStep c read w callback
  | .closeCallback l =>
    match s.closing l with
    | none => .ok s
    | some k => removeConnection { s with closing := Function.update s.closing l none } l k
  | .functor l w =>
    match s.pendingFunctors l with
    | [] => .ok s
    | (k, task) :: rest =>
      runFunctor { s with pendingFunctors := Function.update s.pendingFunctors l rest } l w k task

/-- The loop is between two channels' events, or between two functors. -/
def Idle (l : LoopId) : Prop := s.callbacks l = [] ∧ s.closing l = none

/-- The calls made on a connection, all on its loop. -/
def CallAllowed (c : TcpConnection) : Call → Prop
  | .startRead | .stopRead => False
  | call => (System.start c).CallAllowed call

/-- The callback is given what the system call it makes can return. -/
def HandleAllowed (read : Option Bytes) (w : WriteResult) : List (Nat × Channel.Callback) → Prop
  | [] => False
  | (k, _) :: _ => ∀ r ∈ s.accepted k,
    (read.getD []).length ≤ r.conn.inputBuffer.iovBytes ∧
      w.taken ≤ r.conn.outputBuffer.readableBytes

/-- No string is queued: all calls on a connection are made on its loop. -/
def FunctorAllowed : List (Nat × Task) → Prop
  | [] => False
  | (_, .own f) :: _ => ∀ message, f ≠ .sendInLoop message
  | _ :: _ => True

/-- The environment: the counter of connections does not overflow, and user code does not use
`startRead` and `stopRead`. -/
def enabled : ServerEvent → Prop
  | .newConnection _ _ _ => s.Idle 0 ∧ s.nextConnId + 1 < 2 ^ 31
  | .call k c => ∃ r ∈ s.accepted k, CallAllowed r.conn c
  | .poll k r => ∃ rc ∈ s.accepted k, s.Idle rc.loop ∧
    System.Reports r rc.conn.channel.interest
  | .handle l read w => s.closing l = none ∧ s.HandleAllowed read w (s.callbacks l)
  | .closeCallback l => s.closing l ≠ none
  | .functor l _ => s.Idle l ∧ FunctorAllowed (s.pendingFunctors l)

instance (l : LoopId) : Decidable (s.Idle l) := inferInstanceAs (Decidable (_ ∧ _))

instance (c : TcpConnection) : ∀ call, Decidable (CallAllowed c call)
  | .startRead | .stopRead => isFalse id
  | .send message w => inferInstanceAs (Decidable (System.Sends message w))
  | .retrieveInput len => inferInstanceAs (Decidable (len ≤ c.inputBuffer.readableBytes))
  | .shutdown | .forceClose | .forceCloseWithDelay => isTrue trivial

instance (read : Option Bytes) (w : WriteResult) : ∀ cs, Decidable (s.HandleAllowed read w cs)
  | [] => isFalse id
  | (k, _) :: _ => inferInstanceAs (Decidable (∀ r ∈ s.accepted k,
    (read.getD []).length ≤ r.conn.inputBuffer.iovBytes ∧
      w.taken ≤ r.conn.outputBuffer.readableBytes))

instance : (f : Functor) → Decidable (∀ message, f ≠ .sendInLoop message)
  | .sendInLoop message => isFalse fun h => h message rfl
  | .writeCompleteCallback | .highWaterMarkCallback _ | .forceCloseInLoop | .connectDestroyed =>
    isTrue (by simp)

instance : ∀ fs, Decidable (FunctorAllowed fs)
  | [] => isFalse id
  | (_, .own f) :: _ => inferInstanceAs (Decidable (∀ message, f ≠ .sendInLoop message))
  | (_, .connectEstablished) :: _ | (_, .removeConnectionInLoop) :: _ => isTrue trivial

instance : ∀ e, Decidable (s.enabled e)
  | .newConnection _ _ _ | .handle _ _ _ | .functor _ _ => inferInstanceAs (Decidable (_ ∧ _))
  | .call k c => inferInstanceAs (Decidable (∃ r ∈ s.accepted k, CallAllowed r.conn c))
  | .poll k r => inferInstanceAs (Decidable (∃ rc ∈ s.accepted k, s.Idle rc.loop ∧
    System.Reports r rc.conn.channel.interest))
  | .closeCallback _ => inferInstanceAs (Decidable (_ ≠ _))

def machine : Machine TcpServer ServerEvent Fault := ⟨enabled, step⟩

instance (s : TcpServer) (e : ServerEvent) : Decidable (machine.enabled s e) :=
  inferInstanceAs (Decidable (s.enabled e))

end TcpServer

end Muduo.Net
