import Muduo.Net.ProtobufCodec
import Muduo.Net.RpcChannel
import Muduo.Net.TcpConnection

namespace Muduo.Net.Rpc
open Muduo.Lib

/-- A connection of an RPC server in its loop. Its context owns the channel, of which the message
callback and the closures of the services hold pointers; `destroyed` says that the context has
been reset. -/
structure ServerChannel (M : Type) where
  sys : Net.System
  channel : RpcChannel M
  destroyed : Bool

/-- What `write(2)` returns for some bytes; it takes no more than it is given. -/
structure Kernel where
  result : Bytes → WriteResult

def Kernel.write (k : Kernel) (buf : Bytes) : WriteResult :=
  match k.result buf with
  | .wrote n => .wrote (min n buf.length)
  | .failed errno => .failed errno

theorem Kernel.write_taken (k : Kernel) (buf : Bytes) : (k.write buf).taken ≤ buf.length := by
  unfold write
  split
  · exact Nat.min_le_right _ _
  · exact Nat.zero_le _

/-- The thread that runs a closure; on that of the loop a `send` may write at once. -/
inductive Runner
  | loop (kernel : Kernel)
  | other

namespace ServerChannel

/-- In `handle`, `answers` tells which of the services run their closures before `CallMethod`
returns, and with what. -/
inductive Event (M : Type)
  | poll (r : Revents)
  | handle (read : Option Bytes) (w : WriteResult) (kernel : Kernel) (answers : List (Option M))
  | functor (w : WriteResult)
  | otherQueue (message : Bytes)
  | queueConnectDestroyed
  | finishConnectDestroyed
  | doneCallback (runner : Runner) (id : Nat) (response : M)

variable {M : Type} (pb : Protobuf M) (codec : ProtobufCodecLite RpcMessage)
  (s : ServerChannel M)

/-- `onConnection` of a connection that is up. -/
def onConnectionUp (sys : Net.System) (content : Object → M)
    (services : String → Option (Service M)) : ServerChannel M :=
  ⟨sys, .new content (some services), false⟩

/-- `onConnection` of a connection that is down: the context is reset. -/
def onConnectionDown : ServerChannel M := { s with destroyed := true }

/-- A step of the connection, with its connection callback if it went down in it. -/
def netStep (e : Net.Event) : Except Fault (ServerChannel M) := do
  let sys ← s.sys.step e
  let t := { s with sys }
  .ok (if s.sys.conn.log.downs < sys.conn.log.downs then t.onConnectionDown else t)

/-- A `Buffer` with the frame of a message, which it may be too small for. -/
def fill (message : RpcMessage) : Except Fault Bytes := do
  let buf ← codec.fillEmptyBuffer message
  if buf.length ≤ maxSize then .ok buf else .error .lengthError

/-- `codec_.send(conn_, message)` on the thread of the loop. -/
def send (kernel : Kernel) (message : RpcMessage) : Except Fault (ServerChannel M) := do
  let buf ← fill codec message
  s.netStep (.call (.send buf (kernel.write buf)))

/-- The same on another thread, up to where `send` has looked at `state_`. -/
def otherSend (message : RpcMessage) : Except Fault (ServerChannel M) := do
  let buf ← fill codec message
  if s.sys.conn.state = .kConnected then s.netStep (.otherSend buf) else .ok s

/-- A pointer to the channel is followed. -/
def deref : Except Fault (RpcChannel M) :=
  if s.destroyed then .error .useAfterFree else .ok s.channel

/-- `onRpcMessage`. If a service answers the REQUEST at once, its closure runs before. A server
makes no calls, so that no RESPONSE finds an entry. -/
def onRpcMessage (kernel : Kernel) (message : RpcMessage) (answer : Option M) :
    Except Fault (ServerChannel M) := do
  let channel ← s.deref
  let (channel, sent) ← channel.onRpcMessage pb message
  let accepted := s.channel.pending.length < channel.pending.length
  let (callee, sent) := match answer with
    | some response =>
      if accepted then channel.toCallee.doneCallback pb message.id response
      else (channel.toCallee, sent)
    | none => (channel.toCallee, sent)
  sent.foldlM (fun s message => send codec s kernel message)
    { s with channel := { channel with toCallee := callee } }

def onRpcMessages (kernel : Kernel) :
    List RpcMessage → List (Option M) → ServerChannel M → Except Fault (ServerChannel M)
  | [], _, s => .ok s
  | message :: messages, answers, s => do
    let s ← s.onRpcMessage pb codec kernel message (answers.head?.getD none)
    onRpcMessages kernel messages answers.tail s

/-- `defaultErrorCallback`. -/
def onCodecError : Except Fault (ServerChannel M) :=
  if s.sys.conn.state = .kConnected then s.netStep (.call .shutdown) else .ok s

/-- `RpcChannel::onMessage`. -/
def onMessage (kernel : Kernel) (answers : List (Option M)) :
    Except Fault (ServerChannel M) := do
  let _ ← s.deref
  let buf := s.sys.conn.inputBuffer
  let data ← load buf.buffer buf.peek buf.readableBytes
  let (received, rest) ← codec.onMessage ⟨[], []⟩ data
  let s ← onRpcMessages pb codec kernel received.messages answers s
  let s ← s.netStep (.call (.retrieveInput (data.length - rest.length)))
  if received.errors = [] then .ok s else s.onCodecError

def handle (read : Option Bytes) (w : WriteResult) (kernel : Kernel)
    (answers : List (Option M)) : Except Fault (ServerChannel M) := do
  let t ← s.netStep (.handle read w)
  match s.sys.callbacks.head?, read with
  | some .read, some (_ :: _) => t.onMessage pb codec kernel answers
  | _, _ => .ok t

/-- The closure that the service has for the request `id` runs. -/
def doneCallback (runner : Runner) (id : Nat) (response : M) : Except Fault (ServerChannel M) := do
  let channel ← s.deref
  let (callee, sent) := channel.toCallee.doneCallback pb id response
  let s := { s with channel := { channel with toCallee := callee } }
  match runner, sent with
  | .loop kernel, message :: _ => s.send codec kernel message
  | .other, message :: _ => s.otherSend codec message
  | _, [] => .ok s

def enabled : Event M → Prop
  | .poll r => s.sys.enabled (.poll r)
  | .handle read w _ _ => s.sys.enabled (.handle read w)
  | .functor w => s.sys.enabled (.functor w)
  | .otherQueue message => s.sys.enabled (.otherQueue message)
  | .queueConnectDestroyed => s.sys.enabled .queueConnectDestroyed
  | .finishConnectDestroyed => s.sys.enabled .finishConnectDestroyed
  | .doneCallback _ id _ => ∃ q ∈ s.channel.pending, q.message.id = id

def step : Event M → Except Fault (ServerChannel M)
  | .poll r => s.netStep (.poll r)
  | .handle read w kernel answers => s.handle pb codec read w kernel answers
  | .functor w => s.netStep (.functor w)
  | .otherQueue message => s.netStep (.otherQueue message)
  | .queueConnectDestroyed => s.netStep .queueConnectDestroyed
  | .finishConnectDestroyed => s.netStep .finishConnectDestroyed
  | .doneCallback runner id response => s.doneCallback pb codec runner id response

def machine : Machine (ServerChannel M) (Event M) Fault where
  enabled := enabled
  step := step pb codec

instance (s : ServerChannel M) : ∀ e, Decidable ((machine pb codec).enabled s e)
  | .poll r => inferInstanceAs (Decidable (s.sys.enabled (.poll r)))
  | .handle read w _ _ => inferInstanceAs (Decidable (s.sys.enabled (.handle read w)))
  | .functor w => inferInstanceAs (Decidable (s.sys.enabled (.functor w)))
  | .otherQueue message => inferInstanceAs (Decidable (s.sys.enabled (.otherQueue message)))
  | .queueConnectDestroyed =>
    inferInstanceAs (Decidable (s.sys.enabled .queueConnectDestroyed))
  | .finishConnectDestroyed =>
    inferInstanceAs (Decidable (s.sys.enabled .finishConnectDestroyed))
  | .doneCallback _ id _ =>
    inferInstanceAs (Decidable (∃ q ∈ s.channel.pending, q.message.id = id))

end ServerChannel

end Muduo.Net.Rpc
