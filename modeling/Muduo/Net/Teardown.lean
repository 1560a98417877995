import Muduo.Net.TcpServer

namespace Muduo.Net
open Muduo.Lib

/-- The calls that begin to close a connection that is up. -/
def Call.Halts : Call → Prop
  | .shutdown | .forceClose | .forceCloseWithDelay => True
  | _ => False

/-- The call that has a connection read again, also one that is down. -/
def Call.Reopens : Call → Prop
  | .startRead => True
  | _ => False

instance : DecidablePred Call.Halts
  | .shutdown | .forceClose | .forceCloseWithDelay => isTrue trivial
  | .send _ _ | .startRead | .stopRead | .retrieveInput _ => isFalse id

instance : DecidablePred Call.Reopens
  | .startRead => isTrue trivial
  | .send _ _ | .shutdown | .forceClose | .forceCloseWithDelay | .stopRead | .retrieveInput _ =>
    isFalse id

/-- A callback that ends in `handleClose`. -/
def Channel.Callback.Closes (callback : Channel.Callback) (read : Option Bytes) : Prop :=
  callback = .close ∨ callback = .read ∧ read = some []

instance (callback : Channel.Callback) (read : Option Bytes) : Decidable (callback.Closes read) :=
  inferInstanceAs (Decidable (_ ∨ _))

namespace TcpServer

variable (s : TcpServer)

/-- The environment of a server whose users also call `startRead` and `stopRead`. -/
def uses : ServerEvent → Prop
  | .call k c => ∃ r ∈ s.accepted k, (System.start r.conn).CallAllowed c
  | e => s.enabled e

def serving : Machine TcpServer ServerEvent Fault := ⟨uses, step⟩

/-- The connections in `connections_`. -/
def listed : List Nat :=
  (List.range s.nextConnId).filter fun k => ∃ r ∈ s.accepted k, s.connections r.name = some k

/-- `~TcpServer` goes through `connections_` in this order. -/
def Lists (order : List Nat) : Prop := order.Perm s.listed

/-- `conn->getLoop()->runInLoop(std::bind(&TcpConnection::connectDestroyed, conn))` on the base
loop. -/
def destroyConnection (k : Nat) : Except Fault TcpServer :=
  match s.accepted k with
  | none => .ok s
  | some r =>
    if r.loop = 0 then s.onConnection 0 k [(.connectDestroyed, 0)] TcpConnection.connectDestroyed
    else .ok (s.queueInLoop r.loop (k, .own .connectDestroyed))

/-- The event runs a member function of the server. -/
def CallsServer : ServerEvent → Prop
  | .closeCallback _ => True
  | .functor l _ => (s.pendingFunctors l).head?.map Prod.snd = some .removeConnectionInLoop
  | _ => False

/-- The event happens on the base loop, outside of what user code calls. -/
def OnBase : ServerEvent → Prop
  | .newConnection _ _ _ => True
  | .call _ _ => False
  | .poll k _ => ∃ r ∈ s.accepted k, r.loop = 0
  | .handle l _ _ | .closeCallback l | .functor l _ => l = 0

/-- The connections in `connections_` are not yet established or fully open, and those that are
to be destroyed already do not read again. -/
def Ready : Prop :=
  ∀ k < s.nextConnId, ∀ r ∈ s.accepted k,
    (s.connections r.name = some k → r.conn.state = .kConnecting ∨ r.conn.state = .kConnected) ∧
      ((k, .own .connectDestroyed) ∈ s.pendingFunctors r.loop → r.conn.channel.isNoneEvent = true)

/-- No connection that is open is closed, and none that is down reads again before it is
destroyed. -/
def Harmless : ServerEvent → Prop
  | .call k c => ∀ r ∈ s.accepted k, (c.Halts → r.conn.state ≠ .kConnected) ∧
    (c.Reopens → r.conn.state = .kDisconnected →
      (k, .own .connectDestroyed) ∉ s.pendingFunctors r.loop)
  | .handle l read _ => ∀ p ∈ (s.callbacks l).head?, ¬p.2.Closes read
  | _ => True

instance : ∀ e, Decidable (s.CallsServer e)
  | .closeCallback _ => isTrue trivial
  | .functor l _ => inferInstanceAs (Decidable ((s.pendingFunctors l).head?.map Prod.snd = _))
  | .newConnection _ _ _ | .call _ _ | .poll _ _ | .handle _ _ _ => isFalse id

instance : ∀ e, Decidable (s.OnBase e)
  | .newConnection _ _ _ => isTrue trivial
  | .call _ _ => isFalse id
  | .poll k _ => inferInstanceAs (Decidable (∃ r ∈ s.accepted k, r.loop = 0))
  | .handle l _ _ | .closeCallback l | .functor l _ => inferInstanceAs (Decidable (l = 0))

instance : ∀ e, Decidable (s.uses e)
  | .call k c => inferInstanceAs (Decidable (∃ r ∈ s.accepted k, (System.start r.conn).CallAllowed c))
  | .newConnection a b c => inferInstanceAs (Decidable (s.enabled (.newConnection a b c)))
  | .poll k r => inferInstanceAs (Decidable (s.enabled (.poll k r)))
  | .handle l read w => inferInstanceAs (Decidable (s.enabled (.handle l read w)))
  | .closeCallback l => inferInstanceAs (Decidable (s.enabled (.closeCallback l)))
  | .functor l w => inferInstanceAs (Decidable (s.enabled (.functor l w)))

instance (s : TcpServer) (e : ServerEvent) : Decidable (serving.enabled s e) :=
  inferInstanceAs (Decidable (s.uses e))

instance (order : List Nat) : Decidable (s.Lists order) :=
  inferInstanceAs (Decidable (order.Perm _))

instance : Decidable s.Ready :=
  inferInstanceAs (Decidable (∀ k < s.nextConnId, ∀ r ∈ s.accepted k, _))

instance : ∀ e, Decidable (s.Harmless e)
  | .call k _ => inferInstanceAs (Decidable (∀ r ∈ s.accepted k, _))
  | .handle l read _ => inferInstanceAs (Decidable (∀ p ∈ (s.callbacks l).head?, ¬p.2.Closes read))
  | .newConnection _ _ _ | .poll _ _ | .closeCallback _ | .functor _ _ => isTrue trivial

end TcpServer

/-- A server in its destructor, with the connections that are left in `connections_`. With none
left the server is gone, while its connections and their loops go on. -/
structure Teardown where
  server : TcpServer
  left : List Nat

inductive TeardownEvent
  | destroy
  | server (e : ServerEvent)

namespace Teardown

variable (t : Teardown)

/-- What goes on: the loops, except for the base loop while it is in the destructor. -/
def enabled : TeardownEvent → Prop
  | .destroy => t.left ≠ []
  | .server (.newConnection _ _ _) => False
  | .server e => t.server.uses e ∧ (t.left ≠ [] → ¬t.server.OnBase e)

def step : TeardownEvent → Except Fault Teardown
  | .destroy =>
    match t.left with
    | [] => .ok t
    | k :: left => do
      let server ← t.server.destroyConnection k
      .ok ⟨server, left⟩
  | .server e =>
    if t.left = [] ∧ t.server.CallsServer e then .error .useAfterFree
    else do
      let server ← t.server.step e
      .ok { t with server }

def machine : Machine Teardown TeardownEvent Fault := ⟨enabled, step⟩

/-- The destructor has returned, and the loops have run all that was queued. -/
def Drained : Prop := t.left = [] ∧ ∀ l, t.server.pendingFunctors l = []

/-- No connection goes down more often than it came up, and in the end each has come up, gone down
once, and is down. -/
structure DownOnce : Prop where
  once : ∀ k r, t.server.accepted k = some r → r.conn.log.downs ≤ r.conn.log.ups ∧
    r.conn.log.ups ≤ 1
  settled : t.Drained → ∀ k r, t.server.accepted k = some r → r.conn.log.ups = 1 ∧
    r.conn.log.downs = 1 ∧ r.conn.state = .kDisconnected

/-- Nothing happens but the destructor and what is queued. -/
def Drains : TeardownEvent → Prop
  | .destroy | .server (.functor _ _) => True
  | _ => False

def Harmless : TeardownEvent → Prop
  | .destroy => True
  | .server e => t.server.Harmless e

instance : ∀ e, Decidable (t.enabled e)
  | .destroy => inferInstanceAs (Decidable (t.left ≠ []))
  | .server (.newConnection _ _ _) => isFalse id
  | .server (.call _ _) | .server (.poll _ _) | .server (.handle _ _ _) | .server (.closeCallback _)
  | .server (.functor _ _) => inferInstanceAs (Decidable (_ ∧ _))

instance : ∀ e, Decidable (t.Harmless e)
  | .destroy => isTrue trivial
  | .server e => inferInstanceAs (Decidable (t.server.Harmless e))

instance : DecidablePred Drains
  | .destroy | .server (.functor _ _) => isTrue trivial
  | .server (.newConnection _ _ _) | .server (.call _ _) | .server (.poll _ _)
  | .server (.handle _ _ _) | .server (.closeCallback _) => isFalse id

instance (t : Teardown) (e : TeardownEvent) : Decidable (machine.enabled t e) :=
  inferInstanceAs (Decidable (t.enabled e))

end Teardown

end Muduo.Net
