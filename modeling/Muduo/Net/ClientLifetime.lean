import Muduo.Net.Attempts

namespace Muduo.Net
open Muduo.Lib

/-- A client, its connector, and what has a pointer to the connector: the client while it is
alive, the timer of its destructor, and every retry timer. What the connector queues in the loop
has its plain address. -/
structure ClientLifetime where
  client : TcpClient
  alive : Bool
  remover : Bool
  deriving DecidableEq, Repr

namespace ClientLifetime
open Connector (Functor Errno)

variable (s : ClientLifetime)

def initial : ClientLifetime := ⟨.initial, true, false⟩

/-- The connector has not been freed. -/
def Held : Prop := s.alive = true ∨ s.remover = true ∨ s.client.timers ≠ []

instance : Decidable s.Held :=
  inferInstanceAs (Decidable (s.alive = true ∨ s.remover = true ∨ s.client.timers ≠ []))

/-- A pointer to the connector is gone. The last one takes the connector with it, whose destructor
asserts that there is no channel. -/
def drop : Except Fault ClientLifetime :=
  if s.Held then .ok s
  else do
    check (s.client.channel = none)
    .ok s

/-- The destructor of the client; `unique` is its answer about the connection. -/
def destroy (unique : Bool) : Except Fault ClientLifetime :=
  match s.client.connection with
  | some conn =>
    let client :=
      if unique then Connector.queueInLoop s.client (.forceCloseInLoop conn) else s.client
    drop { s with client := client, alive := false }
  | none => drop { s with client := Connector.stop s.client, alive := false, remover := true }

/-- `detail::removeConnection`, which a connection calls that outlives its client. -/
def removeConnection (client : TcpClient) : TcpClient := { client with connection := none }

/-- A step of the connector once the client is gone: it faults if the connector is gone too, or if
it calls back `TcpClient::newConnection`. -/
def connectorStep (e : TcpClient.Event) : Except Fault ClientLifetime :=
  if s.Held then do
    let client ← s.client.step e
    if client.handed = s.client.handed then .ok { s with client := client }
    else .error .useAfterFree
  else .error .useAfterFree

/-- What happens in the loop once the client is gone. -/
def orphanStep (e : TcpClient.Event) : Except Fault ClientLifetime :=
  match e with
  | .handleClose _ =>
    .ok { s with client := removeConnection { s.client with connectionActive := false } }
  | .handleConnector _ _ _ => s.connectorStep e
  | .functor _ =>
    match s.client.functors with
    | .forceCloseInLoop conn :: fs =>
      let client := { s.client with functors := fs }
      .ok { s with client :=
        if client.connection = some conn then removeConnection client else client }
    | _ => s.connectorStep e
  | .timer _ _ => do
    let client ← s.client.step e
    drop { s with client := client }
  | _ => do
    let client ← s.client.step e
    .ok { s with client := client }

inductive Event
  | run (e : TcpClient.Event)
  | destroy (unique : Bool)
  | removeConnector
  deriving DecidableEq, Repr

/-- The user calls the client while it is alive, and the connector only through it. -/
def Allowed : TcpClient.Event → Prop
  | .enableRetry | .connect _ | .disconnect | .stop => s.alive = true
  | .startConnector _ | .stopConnector => False
  | _ => True

/-- Timers are handled with the active channels. -/
def enabled : Event → Prop
  | .run e => s.client.enabled e ∧ s.Allowed e
  | .destroy _ => s.alive = true
  | .removeConnector => s.remover = true ∧ s.client.callingPendingFunctors = false

def step (s : ClientLifetime) : Event → Except Fault ClientLifetime
  | .run e =>
    if s.alive then do
      let client ← s.client.step e
      .ok { s with client := client }
    else s.orphanStep e
  | .destroy unique => s.destroy unique
  | .removeConnector => drop { s with remover := false }

def machine : Machine ClientLifetime Event Fault where
  enabled := enabled
  step := step

/-- The loop goes on by itself: nothing is reported but what is queued. -/
def Event.Own : Event → Prop
  | .run (.poll connector connection) => connector = false ∧ connection = false
  | .run .doPendingFunctors | .run (.functor _) => True
  | _ => False

/-- Whatever is queued in the loop can be run. -/
def Runs : Prop :=
  ∀ es, machine.Legal (fun _ e => e.Own) s es →
    Yields (fun _ => True) (fun _ => False) (machine.run s es)

/-- Nothing in the loop has the address of the connector. -/
def Free : Prop := s.client.channel = none ∧ .stopInLoop ∉ s.client.queue

/-- The event takes the last pointer to the connector. -/
def Last : Event → Prop
  | .destroy _ => s.client.connection.isSome ∧ s.client.timers = []
  | .removeConnector => s.client.timers = []
  | .run (.timer _ _) => s.alive = false ∧ s.remover = false ∧ s.client.timers.length = 1
  | .run _ => False

def Clear : Event → Prop
  | .run e => s.client.Clear e
  | _ => True

def Careful (e : Event) : Prop := s.Clear e ∧ (s.Last e → s.Free)

end ClientLifetime

end Muduo.Net
