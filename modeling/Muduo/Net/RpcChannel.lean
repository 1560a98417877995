import Mathlib.Logic.Function.Basic
import Muduo.Net.Basic

namespace Muduo.Net.Rpc
open Muduo.Lib

inductive MessageType
  | request
  | response
  | error
  deriving DecidableEq, Repr

inductive ErrorCode
  | noError
  | wrongProto
  | noService
  | noMethod
  | invalidRequest
  | invalidResponse
  | timeout
  deriving DecidableEq, Repr

/-- An optional field that is not set is `none`. -/
structure RpcMessage where
  type : MessageType
  id : Nat
  service : Option String := none
  method : Option String := none
  request : Option Bytes := none
  response : Option Bytes := none
  error : Option ErrorCode := none
  deriving DecidableEq, Repr

/-- What a channel uses of Protocol Buffers: `SerializeAsString`, and what `ParseFromString` leaves
in an object and returns. -/
structure Protobuf (M : Type) where
  serializeAsString : M → Bytes
  parseFromString : M → Bytes → M × Bool

structure Method (M : Type) where
  requestPrototype : M
  responsePrototype : M

/-- `FindMethodByName`. -/
abbrev Service (M : Type) := String → Option (Method M)

/-- A response object, by its address. -/
abbrev Object := Nat

/-- A `done` closure, by its address. -/
abbrev Closure := Nat

/-- The arguments of `CallMethod`. -/
structure Call (M : Type) where
  service : String
  method : String
  request : M
  response : Object
  done : Option Closure

structure OutstandingCall where
  response : Object
  done : Option Closure
  deriving DecidableEq, Repr

/-- A run of `CallMethod` from taking its id on: how many RESPONSEs had been delivered when it made
its entry, if it has, and whether its message was sent. -/
structure Activation (M : Type) where
  id : Nat
  call : Call M
  since : Option Nat
  sent : Bool

/-- `onRpcMessage` at a RESPONSE it has found the entry for, before and after it runs `done`. -/
structure Answering where
  message : RpcMessage
  out : OutstandingCall
  ran : Bool
  deriving DecidableEq, Repr

variable {M : Type} (pb : Protobuf M)

namespace Activation

variable (p : Activation M)

def out : OutstandingCall := ⟨p.call.response, p.call.done⟩

def message : RpcMessage :=
  { type := .request, id := p.id, service := some p.call.service, method := some p.call.method,
    request := some (pb.serializeAsString p.call.request) }

end Activation

def errorMessage (id : Nat) (error : ErrorCode) : RpcMessage :=
  { type := .response, id := id, error := some error }

def doneMessage (id : Nat) (response : M) : RpcMessage :=
  { type := .response, id := id, response := some (pb.serializeAsString response) }

/-- What a channel does for the calls made on its side. The response objects are its heap; the
runs of `CallMethod`, the delivered RESPONSEs, the closures run, each with what its response
object held, and the objects freed are history. -/
structure Caller (M : Type) where
  id : Nat
  outstandings : Nat → Option OutstandingCall
  content : Object → M
  answering : Option Answering
  calls : List (Activation M)
  delivered : List RpcMessage
  ran : List (Closure × M)
  freed : List Object

namespace Caller

variable (c : Caller M)

/-- `CallMethod` up to `id_.incrementAndGet()`. -/
def beginCall (call : Call M) : Caller M :=
  let id := (c.id + 1) % 2 ^ 64
  { c with id := id, calls := c.calls ++ [⟨id, call, none, false⟩] }

def rewrite (id : Nat) (f : Activation M → Activation M) : List (Activation M) :=
  c.calls.map fun p => if p.id = id then f p else p

/-- `outstandings_[id] = out`. -/
def enter (id : Nat) : Caller M :=
  match c.calls.find? (·.id = id) with
  | none => c
  | some p =>
    { c with
      outstandings := Function.update c.outstandings id (some p.out)
      calls := c.rewrite id fun p => { p with since := some c.delivered.length } }

/-- `codec_.send(conn_, message)` in `CallMethod`. -/
def send (id : Nat) : Caller M × List RpcMessage :=
  ({ c with calls := c.rewrite id fun p => { p with sent := true } },
    (c.calls.find? (·.id = id)).toList.map (·.message pb))

/-- `onRpcMessage` for a RESPONSE, up to the end of the block under the lock. -/
def takeEntry (message : RpcMessage) : Caller M :=
  { c with
    outstandings := Function.update c.outstandings message.id none
    answering := (c.outstandings message.id).map fun out => ⟨message, out, false⟩
    delivered := c.delivered ++ [message] }

/-- What a response object holds once a RESPONSE was looked at. -/
def outcome (message : RpcMessage) (content : M) : M :=
  match message.response with
  | some bytes => (pb.parseFromString content bytes).1
  | none => content

/-- `onRpcMessage` from there until `done` runs. -/
def runDone : Caller M :=
  match c.answering with
  | none => c
  | some a =>
    let value := outcome pb a.message (c.content a.out.response)
    { c with
      content := Function.update c.content a.out.response value
      ran := c.ran ++ a.out.done.toList.map fun d => (d, value)
      answering := some { a with ran := true } }

/-- `done` has returned, and `d` goes out of scope. -/
def finish : Caller M :=
  match c.answering with
  | none => c
  | some a => { c with freed := c.freed ++ [a.out.response], answering := none }

end Caller

/-- A call of a service whose closure has not run yet. -/
structure Serving (M : Type) where
  message : RpcMessage
  request : M
  response : M

/-- What a channel does for the calls of its peer. The delivered REQUESTs, the RESPONSEs sent and
what the services answered are history. -/
structure Callee (M : Type) where
  services : Option (String → Option (Service M))
  pending : List (Serving M)
  requests : List RpcMessage
  responses : List RpcMessage
  completed : List (RpcMessage × M)

namespace Callee

variable (s : Callee M)

def dispatch (message : RpcMessage) : Except ErrorCode (Serving M) :=
  match s.services with
  | none => .error .noService
  | some services =>
    match services (message.service.getD "") with
    | none => .error .noService
    | some service =>
      match service (message.method.getD "") with
      | none => .error .noMethod
      | some method =>
        let request := pb.parseFromString method.requestPrototype (message.request.getD [])
        if request.2 then .ok ⟨message, request.1, method.responsePrototype⟩
        else .error .invalidRequest

def respond (message : RpcMessage) : Callee M × List RpcMessage :=
  ({ s with responses := s.responses ++ [message] }, [message])

/-- `onRpcMessage` for a REQUEST. -/
def onRequest (message : RpcMessage) : Callee M × List RpcMessage :=
  let s := { s with requests := s.requests ++ [message] }
  match s.dispatch pb message with
  | .ok serving => ({ s with pending := s.pending ++ [serving] }, [])
  | .error error => s.respond (errorMessage message.id error)

/-- The service runs the closure it was given for the request `id`, with `response` filled in. -/
def doneCallback (id : Nat) (response : M) : Callee M × List RpcMessage :=
  match s.pending.find? (·.message.id = id) with
  | none => (s, [])
  | some serving =>
    respond
      { s with
        pending := s.pending.eraseP (·.message.id = id)
        completed := s.completed ++ [(serving.message, response)] }
      (doneMessage pb id response)

end Callee

structure RpcChannel (M : Type) extends Caller M, Callee M

namespace RpcChannel

def new (content : Object → M) (services : Option (String → Option (Service M))) : RpcChannel M where
  id := 0
  outstandings := fun _ => none
  content := content
  answering := none
  calls := []
  delivered := []
  ran := []
  freed := []
  services := services
  pending := []
  requests := []
  responses := []
  completed := []

/-- The channel after a message, up to running `done`, and what it sends. -/
def onRpcMessage (ch : RpcChannel M) (message : RpcMessage) :
    Except Fault (RpcChannel M × List RpcMessage) :=
  match message.type with
  | .response => do
    check (message.response.isSome ∨ message.error.isSome)
    .ok ({ ch with toCaller := ch.toCaller.takeEntry message }, [])
  | .request =>
    let r := ch.toCallee.onRequest pb message
    .ok ({ ch with toCallee := r.1 }, r.2)
  | .error => .ok (ch, [])

end RpcChannel

inductive Side
  | left
  | right
  deriving DecidableEq, Repr

def Side.other : Side → Side
  | .left => .right
  | .right => .left

/-- Two channels and what is under way to each. -/
structure System (M : Type) where
  channel : Side → RpcChannel M
  inFlight : Side → List RpcMessage

inductive Event (M : Type)
  | beginCall (x : Side) (call : Call M)
  | enter (x : Side) (id : Nat)
  | send (x : Side) (id : Nat)
  | deliver (x : Side)
  | inject (x : Side) (message : RpcMessage)
  | runDone (x : Side)
  | finish (x : Side)
  | complete (x : Side) (id : Nat) (response : M)

namespace System

variable (s : System M)

def new (content : Side → Object → M) (services : Side → Option (String → Option (Service M))) :
    System M where
  channel := fun x => .new (content x) (services x)
  inFlight := fun _ => []

/-- The channel `x` takes a step and sends something. -/
def put (x : Side) (ch : RpcChannel M) (sent : List RpcMessage) : System M where
  channel := Function.update s.channel x ch
  inFlight := Function.update s.inFlight x.other (s.inFlight x.other ++ sent)

def putCaller (x : Side) (c : Caller M) (sent : List RpcMessage) : System M :=
  s.put x { s.channel x with toCaller := c } sent

def putCallee (x : Side) (c : Callee M) (sent : List RpcMessage) : System M :=
  s.put x { s.channel x with toCallee := c } sent

/-- The loop of `x` hands a message to `onRpcMessage`. -/
def receive (x : Side) (message : RpcMessage) : Except Fault (System M) := do
  let r ← (s.channel x).onRpcMessage pb message
  .ok (s.put x r.1 r.2)

def step : Event M → Except Fault (System M)
  | .beginCall x call => .ok (s.putCaller x ((s.channel x).beginCall call) [])
  | .enter x id => .ok (s.putCaller x ((s.channel x).enter id) [])
  | .send x id =>
    let r := (s.channel x).send pb id
    .ok (s.putCaller x r.1 r.2)
  | .deliver x =>
    match s.inFlight x with
    | [] => .ok s
    | message :: rest =>
      receive pb { s with inFlight := Function.update s.inFlight x rest } x message
  | .inject x message => s.receive pb x message
  | .runDone x => .ok (s.putCaller x ((s.channel x).runDone pb) [])
  | .finish x => .ok (s.putCaller x (s.channel x).finish [])
  | .complete x id response =>
    let r := (s.channel x).doneCallback pb id response
    .ok (s.putCallee x r.1 r.2)

/-- A call brings a response object and a closure of its own, and the ids do not wrap. A loop is
not handed a message while it is busy with a RESPONSE. What is injected is a RESPONSE that the
peer has sent before, or one whose id the channel does not know. -/
def enabled : Event M → Prop
  | .beginCall x call => (s.channel x).id + 1 < 2 ^ 63 ∧ ∀ p ∈ (s.channel x).calls,
      p.call.response ≠ call.response ∧ (p.call.done = call.done → call.done = none)
  | .enter x id => ∃ p ∈ (s.channel x).calls, p.id = id ∧ p.since = none
  | .send x id => ∃ p ∈ (s.channel x).calls, p.id = id ∧ p.since ≠ none ∧ p.sent = false
  | .deliver x => (s.channel x).answering = none ∧ s.inFlight x ≠ []
  | .inject x message => (s.channel x).answering = none ∧ message.type = .response ∧
      (message ∈ (s.channel x.other).responses ∨ (s.channel x).outstandings message.id = none)
  | .runDone x => ∃ a ∈ (s.channel x).answering, a.ran = false
  | .finish x => ∃ a ∈ (s.channel x).answering, a.ran = true
  | .complete x id _ => ∃ q ∈ (s.channel x).pending, q.message.id = id

instance : ∀ e, Decidable (s.enabled e)
  | .beginCall _ _ | .deliver _ | .inject _ _ => inferInstanceAs (Decidable (_ ∧ _))
  | .enter x id => inferInstanceAs
    (Decidable (∃ p ∈ (s.channel x).calls, p.id = id ∧ p.since = none))
  | .send x id => inferInstanceAs
    (Decidable (∃ p ∈ (s.channel x).calls, p.id = id ∧ p.since ≠ none ∧ p.sent = false))
  | .runDone x => inferInstanceAs (Decidable (∃ a ∈ (s.channel x).answering, a.ran = false))
  | .finish x => inferInstanceAs (Decidable (∃ a ∈ (s.channel x).answering, a.ran = true))
  | .complete x id _ => inferInstanceAs
    (Decidable (∃ q ∈ (s.channel x).pending, q.message.id = id))

end System

def machine : Machine (System M) (Event M) Fault where
  enabled := System.enabled
  step := System.step pb

end Muduo.Net.Rpc
