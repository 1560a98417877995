import Mathlib.Data.List.AList
import Muduo.Lib.BigEndian
import Muduo.Net.Basic

namespace Muduo.Examples
open Muduo.Lib Muduo.Net

/-- What a frame between multiplexer and backend carries. -/
structure Packet where
  id : Int
  type : UInt8
  payload : Bytes
  deriving DecidableEq, Repr

namespace ClientType

def conn : UInt8 := 0
def disconn : UInt8 := 1
def msg : UInt8 := 2

end ClientType

namespace Multiplexer

def maxConns : Nat := 65535
def maxPacketLen : Nat := 512
def headerLen : Nat := 8

def upText (id : Int) (peer : Bytes) : Bytes :=
  snprintf 256 (ascii "CONN " ++ decimal id ++ ascii " FROM " ++ peer ++ ascii " IS UP\r\n")

def downText (id : Int) (peer : Bytes) : Bytes :=
  snprintf 256 (ascii "CONN " ++ decimal id ++ ascii " FROM " ++ peer ++ ascii " is DOWN\r\n")

end Multiplexer

/-- The multiplexer over client connections `κ`, with the context of each of them and what it
has sent so far: the bytes to the backend, the packets they are made of with the client that
each is about, the strings to clients, and the clients told to shut down. -/
structure Multiplexer (κ : Type) where
  backendConnection : Bool
  clientConnections : AList fun _ : Int => κ
  availIds : List Int
  context : κ → Option Int
  toBackend : Bytes
  emitted : List (κ × Packet)
  toClients : List (κ × Bytes)
  shutdowns : List κ

namespace Multiplexer

variable {κ : Type} [DecidableEq κ]

def new : Multiplexer κ := ⟨false, ∅, [], fun _ => none, [], [], [], []⟩

/-- `buff` is a fresh buffer that holds the type byte and the payload, so `prepend` finds
`kCheapPrepend = HEADER_LEN` bytes. -/
def sendBackendPacket (m : Multiplexer κ) (client : κ) (id : Int) (buff : Bytes) :
    Except Fault (Multiplexer κ) := do
  let len := buff.length
  check (len ≤ maxPacketLen)
  let header := BigEndian.encode 4 (Word.sub 32 len 1) ++ BigEndian.encode 4 (Word.ofSigned 32 id)
  if m.backendConnection then
    .ok { m with
      toBackend := m.toBackend ++ (header ++ buff)
      emitted := m.emitted ++ [(client, ⟨id, buff.headD 0, buff.tail⟩)] }
  else .ok m

def sendBackendString (m : Multiplexer κ) (client : κ) (id : Int) (type : UInt8) (text : Bytes) :
    Except Fault (Multiplexer κ) :=
  m.sendBackendPacket client id (type :: text)

/-- `onClientConnection` for a connection that is up. -/
def onClientUp (m : Multiplexer κ) (client : κ) (peer : Bytes) : Except Fault (Multiplexer κ) :=
  let (id, m) : Int × Multiplexer κ :=
    match m.availIds with
    | [] => (-1, m)
    | id :: ids =>
      (id, { m with availIds := ids, clientConnections := m.clientConnections.insert id client })
  if id < 0 then .ok { m with shutdowns := m.shutdowns ++ [client] }
  else
    sendBackendString { m with context := Function.update m.context client (some id) }
      client id ClientType.conn (upText id peer)

/-- `onClientConnection` for a connection that is down. -/
def onClientDown (m : Multiplexer κ) (client : κ) (peer : Bytes) :
    Except Fault (Multiplexer κ) :=
  match m.context client with
  | none => .ok m
  | some id => do
    check (0 ≤ id ∧ id < maxConns)
    let m ← m.sendBackendString client id ClientType.disconn (downText id peer)
    .ok { m with
      availIds := m.availIds ++ [id], clientConnections := m.clientConnections.erase id }

/-- The loop of `onClientMessage` and the packet with the rest; returns what stays in `buff`. -/
def sendMessage (m : Multiplexer κ) (client : κ) (id : Int) (buff : Bytes) :
    Except Fault (Multiplexer κ × Bytes) :=
  if maxPacketLen ≤ buff.length then do
    let m ← m.sendBackendPacket client id (ClientType.msg :: buff.take maxPacketLen)
    sendMessage m client id (buff.drop maxPacketLen)
  else if 0 < buff.length then do
    let m ← m.sendBackendPacket client id (ClientType.msg :: buff)
    .ok (m, [])
  else .ok (m, buff)
termination_by buff.length
decreasing_by
  rename_i h
  rw [List.length_drop]
  unfold maxPacketLen at h ⊢
  omega

def onClientMessage (m : Multiplexer κ) (client : κ) (buff : Bytes) :
    Except Fault (Multiplexer κ × Bytes) :=
  match m.context client with
  | some id => m.sendMessage client id buff
  | none => .ok (m, [])

/-- `onBackendConnection`; when the backend is down, all clients are told to shut down. -/
def onBackendConnection (m : Multiplexer κ) (connected : Bool) : Except Fault (Multiplexer κ) :=
  if connected then do
    check (m.availIds = [])
    .ok { m with
      backendConnection := true
      availIds := (List.range' 0 maxConns).map Int.ofNat }
  else
    .ok { m with
      backendConnection := false, clientConnections := ∅, availIds := []
      shutdowns := m.shutdowns ++ m.clientConnections.entries.map Sigma.snd }

def sendClientString (m : Multiplexer κ) (id : Int) (type : UInt8) (text : Bytes) :
    Multiplexer κ :=
  if type = ClientType.msg then
    match m.clientConnections.lookup id with
    | some client => { m with toClients := m.toClients ++ [(client, text)] }
    | none => m
  else if type = ClientType.disconn then
    match m.clientConnections.lookup id with
    | some client =>
      { m with
        shutdowns := m.shutdowns ++ [client]
        clientConnections := m.clientConnections.erase id
        availIds := m.availIds ++ [id] }
    | none => m
  else m

/-- The multiplexer with its clients: which of them ever connected, which are connected now,
and what each has in its input buffer. -/
structure System (κ : Type) where
  mux : Multiplexer κ
  seen : κ → Bool
  up : κ → Bool
  input : κ → Bytes

inductive ClientEvent (κ : Type)
  | up (client : κ)
  | message (client : κ) (chunk : Bytes)
  | down (client : κ)

inductive Event (κ : Type)
  | client (e : ClientEvent κ)
  | backendUp
  | backendPacket (id : Int) (type : UInt8) (text : Bytes)

namespace System

def new : System κ := ⟨Multiplexer.new, fun _ => false, fun _ => false, fun _ => []⟩

def clientEnabled (s : System κ) : ClientEvent κ → Prop
  | .up client => s.seen client = false
  | .message client _ | .down client => s.up client = true

/-- `peer` is the printed address of a client. -/
def clientStep (peer : κ → Bytes) (s : System κ) : ClientEvent κ → Except Fault (System κ)
  | .up client => do
    let mux ← s.mux.onClientUp client (peer client)
    .ok { s with
      mux := mux, seen := Function.update s.seen client true
      up := Function.update s.up client true }
  | .message client chunk => do
    let (mux, rest) ← s.mux.onClientMessage client (s.input client ++ chunk)
    .ok { s with mux := mux, input := Function.update s.input client rest }
  | .down client => do
    let mux ← s.mux.onClientDown client (peer client)
    .ok { s with mux := mux, up := Function.update s.up client false }

/-- The backend connects once, and sends packets while it is connected. -/
def enabled (s : System κ) : Event κ → Prop
  | .client e => s.clientEnabled e
  | .backendUp => s.mux.backendConnection = false
  | .backendPacket _ _ _ => s.mux.backendConnection = true

def step (peer : κ → Bytes) (s : System κ) : Event κ → Except Fault (System κ)
  | .client e => s.clientStep peer e
  | .backendUp => do
    let mux ← s.mux.onBackendConnection true
    .ok { s with mux := mux }
  | .backendPacket id type text => .ok { s with mux := s.mux.sendClientString id type text }

instance (s : System κ) : (e : Event κ) → Decidable (s.enabled e)
  | .client (.up _) | .client (.message _ _) | .client (.down _) | .backendUp
  | .backendPacket _ _ _ => inferInstanceAs (Decidable (_ = _))

def machine (peer : κ → Bytes) : Machine (System κ) (Event κ) Fault := ⟨enabled, step peer⟩

instance (peer : κ → Bytes) : (s : System κ) → (e : Event κ) →
    Decidable ((machine peer).enabled s e) :=
  fun s e => inferInstanceAs (Decidable (s.enabled e))

end System

end Multiplexer

end Muduo.Examples
